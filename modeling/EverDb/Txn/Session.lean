import EverDb.Txn.Boundary

/-!
# A client of the block functions

`Session` is a database together with what its client knows: the blocks it holds
and may write, and the bytes each block should have. A step makes one call and
updates the client's knowledge from the answer alone. `Run` is a sequence of steps
of a disciplined client whose lists stay in their roots.
-/

namespace EverDb

open Foundation

/-- The calls of a client. `create` is `edb_array_create`; `write` stores the bytes
of a block. -/
inductive Op where
  | begin
  | allocate
  | modify (block : Nat)
  | free (block : Nat)
  | create (itemSize : UInt8)
  | write (block : Nat) (image : Image)
  | commit
  | abort

namespace Op

/-- The call, with the block number it returns; a new object answers with its root. -/
def call (depth : Nat) : Op → Code EdbDb Nat
  | begin => do
      edbTxnBegin depth
      pure 0
  | allocate => edbAllocateBlock depth
  | modify block => edbModifyBlock depth block
  | free block => do
      edbFreeBlock depth block
      pure 0
  | create itemSize => do
      let h ← edbArrayCreate depth itemSize.toNat
      let handle ← handleAt h
      pure handle.root
  | write block image => do
      .update fun db => db.write block image
      pure 0
  | commit => do
      edbTxnCommit depth
      pure 0
  | abort => do
      edbTxnAbort depth
      pure 0

end Op

/-- What the client knows after a call that returned `value`. -/
def Client.after (c : Client) (op : Op) (value : Nat) : Client :=
  match op with
  | .begin => c.begun
  | .allocate => c.took value
  | .modify block => c.moved block value
  | .free block => c.gave block
  | .create _ => c
  | .write _ _ => c
  | .commit => c.committed
  | .abort => c.aborted

/-- What the client knows after an answer. -/
def Client.next (c : Client) (op : Op) : Except Int Nat → Client
  | .ok value => c.after op value
  | .error _ => c

/-- The client passes only blocks it holds, and writes only blocks that this
transaction returned to it. -/
def Client.Disciplined (c : Client) : Op → Prop
  | .modify block => block ∈ c.held
  | .free block => block ∈ c.held
  | .write block _ => block ∈ c.written
  | _ => True

instance (c : Client) : ∀ op, Decidable (c.Disciplined op)
  | .modify block => inferInstanceAs (Decidable (block ∈ c.held))
  | .free block => inferInstanceAs (Decidable (block ∈ c.held))
  | .write block _ => inferInstanceAs (Decidable (block ∈ c.written))
  | .begin | .allocate | .create _ | .commit | .abort => inferInstanceAs (Decidable True)

/-- A database, its client, the bytes each block should have and those it had at
begin. -/
structure Session where
  db : EdbDb
  client : Client
  content : Nat → Image
  saved : Nat → Image

/-- Change the bytes one block should have. -/
def setContent (content : Nat → Image) (block : Nat) (image : Image) : Nat → Image :=
  fun other => if other = block then image else content other

/-- The entries of a list of blocks, as they lie in its root. -/
def arrayWords (db : EdbDb) (root : Nat) : List Nat :=
  (List.range (arrayLength db root)).map (db.data root).word

/-- The words read off the database are those of the stack. -/
theorem Stack.words {db : EdbDb} {root : Nat} {words : List Nat}
    (stack : Stack (db.data root) words) :
    arrayWords db root = words := by
  have length : arrayLength db root = words.length := stack.length
  apply List.ext_getElem?
  intro i
  simp only [arrayWords, length, List.getElem?_map]
  by_cases inside : i < words.length
  · have found := List.getElem?_eq_getElem inside
    rw [List.getElem?_range inside, Option.map_some, found, stack.word found]
  · rw [List.getElem?_eq_none (by simpa using inside),
      List.getElem?_eq_none (by simpa using inside)]
    rfl

namespace Session

/-- A session that starts on a database whose client holds the listed blocks. -/
def start (db : EdbDb) (held : List Nat) : Session := ⟨db, ⟨held, [], held, []⟩, db.data, db.data⟩

/-- The freelist of a session. -/
def freelist (s : Session) : List Nat := arrayWords s.db s.db.ctl.freelist

/-- The list of objects of a session. -/
def objects (s : Session) : List Nat := arrayWords s.db s.db.ctl.objlist

/-- The working copy of the object list. -/
def workingCopy (s : Session) : List Nat :=
  if s.db.ctl.objlist = edbObjlist then [] else [s.db.ctl.objlist]

/-- The session after a call that returned `value` and left `db`. -/
def after (s : Session) (op : Op) (value : Nat) (db : EdbDb) : Session where
  db := db
  client := s.client.after op value
  content :=
    match op with
    | .allocate => setContent s.content value (db.data value)
    | .modify block => setContent s.content value (s.content block)
    | .create itemSize => setContent s.content value (emptyArray itemSize.toNat)
    | .write block image => setContent s.content block image
    | .abort => s.saved
    | _ => s.content
  saved :=
    match op with
    | .begin => s.db.data
    | _ => s.saved

/-- One call: its answer and the session after it. -/
def step (depth : Nat) (s : Session) (op : Op) : Option (Except Int Nat × Session) :=
  match op.call depth s.db with
  | .ok value db => some (.ok value, s.after op value db)
  | .error code db => some (.error code, { s with db := db })
  | .stuck => none

/-- Neither the freelist nor the object list outgrows its root in the call. -/
def Inline (s : Session) (op : Op) : Prop :=
  s.db.ctl.txn ≠ [] →
    let state := (currentBlocks s.db).get
    match op with
    | .allocate => takesFit 1 s.freelist.length s.db.ctl.nblocks
    | .modify block => state block = 0 → takesFit 1 s.freelist.length s.db.ctl.nblocks
    | .free block => state block ≠ 0 → s.freelist.length < 1021
    | .create _ =>
        takesFit (if state s.db.ctl.objlist = 0 then 2 else 1) s.freelist.length s.db.ctl.nblocks ∧
          s.objects.length < 1021
    | .commit => s.freelist.length + s.client.retired.length + s.workingCopy.length ≤ 1021
    | _ => True

end Session

/-- A run of a disciplined client, with the answers of the calls. -/
inductive Run (depth : Nat) : Session → List Op → List (Except Int Nat) → Session → Prop
  | done {s : Session} : Run depth s [] [] s
  | call {s next last : Session} {op : Op} {ops : List Op} {answer : Except Int Nat}
      {answers : List (Except Int Nat)} (disciplined : s.client.Disciplined op)
      (inside : s.Inline op)
      (ran : s.step depth op = some (answer, next)) (rest : Run depth next ops answers last) :
      Run depth s (op :: ops) (answer :: answers) last

namespace Run

variable {depth : Nat} {s last : Session} {op : Op} {answers : List (Except Int Nat)}

/-- A run in two parts. -/
theorem split {first second : List Op} (run : Run depth s (first ++ second) answers last) :
    ∃ mid front back, answers = front ++ back ∧ Run depth s first front mid ∧
      Run depth mid second back last := by
  induction first generalizing s answers with
  | nil => exact ⟨s, [], answers, rfl, .done, run⟩
  | cons op rest ih =>
      cases run with
      | call disciplined inside ran later =>
          obtain ⟨mid, front, back, rfl, one, two⟩ := ih later
          exact ⟨mid, _ :: front, back, rfl, .call disciplined inside ran one, two⟩

/-- The last call of a run, and the run before it. -/
theorem last_call {first : List Op} (run : Run depth s (first ++ [op]) answers last) :
    ∃ mid front, Run depth s first front mid ∧ mid.client.Disciplined op ∧ mid.Inline op ∧
      ∃ answer, mid.step depth op = some (answer, last) := by
  obtain ⟨mid, front, back, _, before, final⟩ := run.split
  cases final with
  | call disciplined inside ran rest =>
      cases rest
      exact ⟨mid, front, before, disciplined, inside, _, ran⟩

end Run

/-- The books of a database: closed between transactions, or opened with those of
begin. -/
inductive Bank where
  | closed (books : Books)
  | opened (base : Books) (ledger : Ledger)

namespace Bank

/-- The answer of a call, from the books alone. -/
def answer : Bank → Op → Except Int Nat
  | closed _, .begin => .ok 0
  | closed _, .write _ _ => .ok 0
  | closed _, _ => .error edbErrTxnNoTransaction
  | opened _ _, .begin => .error edbErrTxnNotImplemented
  | opened _ l, .allocate => .ok l.allocate.1
  | opened _ l, .modify block => .ok (l.modify block).1
  | opened _ l, .create _ => .ok l.create.1
  | opened _ _, _ => .ok 0

/-- The books after a call. -/
def next : Bank → Op → Bank
  | closed books, .begin => opened books books.begun
  | closed books, _ => closed books
  | opened base l, .allocate => opened base l.allocate.2
  | opened base l, .modify block => opened base (l.modify block).2
  | opened base l, .free block => opened base (l.freeBlock block)
  | opened base l, .create _ => opened base l.create.2
  | opened _ l, .commit => closed l.commit
  | opened base _, .abort => closed base
  | opened base l, _ => opened base l

/-- The answers of a run, from the books alone. -/
def answers : Bank → List Op → List (Except Int Nat)
  | _, [] => []
  | bank, op :: ops => bank.answer op :: (bank.next op).answers ops

/-- The condition `Session.Inline`, from the books alone. -/
def Fits (c : Client) : Bank → Op → Prop
  | closed _, _ => True
  | opened _ l, .allocate => takesFit 1 l.free.length l.nblocks
  | opened _ l, .modify block => l.table.get block = 0 → takesFit 1 l.free.length l.nblocks
  | opened _ l, .free block => l.table.get block ≠ 0 → l.free.length < 1021
  | opened _ l, .create _ =>
      takesFit (if l.table.get l.objlist = 0 then 2 else 1) l.free.length l.nblocks ∧
        l.objects.length < 1021
  | opened _ l, .commit => l.free.length + c.retired.length + l.workingCopy.length ≤ 1021
  | opened _ _, _ => True

instance (c : Client) : ∀ bank op, Decidable (Fits c bank op)
  | closed _, _ => inferInstanceAs (Decidable True)
  | opened _ _, .allocate => inferInstanceAs (Decidable (takesFit _ _ _))
  | opened _ _, .modify _ => inferInstanceAs (Decidable (_ → _))
  | opened _ _, .free _ => inferInstanceAs (Decidable (_ → _))
  | opened _ _, .create _ => inferInstanceAs (Decidable (_ ∧ _))
  | opened _ _, .commit => inferInstanceAs (Decidable (_ ≤ _))
  | opened _ _, .begin | opened _ _, .write _ _ | opened _ _, .abort =>
      inferInstanceAs (Decidable True)

/-- The calls of a disciplined client whose lists stay in their roots. -/
def Allows : Bank → Client → List Op → Prop
  | _, _, [] => True
  | bank, c, op :: ops => c.Disciplined op ∧ bank.Fits c op ∧
      (bank.next op).Allows (c.next op (bank.answer op)) ops

/-- Whether a run is allowed can be checked. -/
instance allowsDecidable : ∀ bank c ops, Decidable (Allows bank c ops)
  | _, _, [] => inferInstanceAs (Decidable True)
  | bank, c, op :: ops =>
      have := allowsDecidable (bank.next op) (c.next op (bank.answer op)) ops
      inferInstanceAs (Decidable (_ ∧ _ ∧ _))

end Bank

/-- The database of a session has the given books, and every block in use has the
bytes it should have. -/
inductive Session.Keeps (others : List Nat) (s : Session) : Bank → Prop
  | closed {books : Books} (settled : Settled s.db books) (sound : books.Sound others s.client.held)
      (client : s.client.committed = s.client)
      (content : ∀ block ∈ s.client.held ++ books.objects ++ others,
        s.db.data block = s.content block) : Keeps others s (.closed books)
  | opened {base : Books} {l : Ledger} (tracks : Tracks s.db base l)
      (sound : l.Sound others base s.client)
      (content : ∀ block ∈ s.client.held ++ l.objects ++ others, s.db.data block = s.content block)
      (saved : ∀ block, LiveAtBegin others base s.client block →
        s.db.data block = s.saved block) : Keeps others s (.opened base l)

variable {others : List Nat} {s : Session} {bank : Bank} {op : Op}

/-- The lists of a session are those of its books. -/
theorem Session.inline_iff (keeps : s.Keeps others bank) (op : Op) :
    s.Inline op ↔ bank.Fits s.client op := by
  cases keeps with
  | closed settled sound client content =>
      simp [Session.Inline, settled.txn, Bank.Fits]
  | @opened base l tracks sound content saved =>
      have free : s.freelist = l.free := by
        rw [Session.freelist, tracks.freelist]
        exact tracks.free.words
      have objects : s.objects = l.objects := by
        rw [Session.objects, tracks.objlist]
        exact tracks.objects.words
      have table : currentBlocks s.db = l.table := currentBlocks_eq tracks.txn
      have copy : s.workingCopy = l.workingCopy := by
        rw [Session.workingCopy, Ledger.workingCopy, tracks.objlist]
      have open_ : s.db.ctl.txn ≠ [] := by rw [tracks.txn]; simp
      simp only [Session.Inline, free, objects, table, copy, tracks.nblocks, tracks.objlist]
      cases op <;> simp [Bank.Fits, open_]

end EverDb
