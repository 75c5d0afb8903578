import EverDb.Edb.Descriptor
import EverDb.Txn.Atomic

/-!
# What an opened file is good for

`edb_open` takes a file for a new one when `overwrite` is set. Without it the test
assigns zero to `readonly` and never holds, so a file that is missing or empty is mapped
with one block and no lists, and `edb_open` returns 0. A file that was opened with
`overwrite` once has its roots, whatever later programs made of it.
-/

namespace EverDb

open Foundation

/-- A file: its size, its blocks, and those that its programs hold. -/
structure StoredFile where
  size : Nat
  data : Nat → Image
  held : List Nat

/-- What `open` and `fstat` answer when both succeed: with `O_TRUNC` the file is empty. -/
structure FileAnswer.Grants (answer : FileAnswer) (file : StoredFile)
    (overwrite : Bool) : Prop where
  descriptor : 0 ≤ answer.descriptor
  fstat : 0 ≤ answer.fstat
  size : answer.size = if overwrite then 0 else file.size

/-- The blocks that a program holds which opens the file. -/
def StoredFile.keptBy (file : StoredFile) (overwrite : Bool) : List Nat :=
  if overwrite then [] else file.held

/-- The files that programs leave, and whether one of them has set `overwrite`: each
opens the file for writing, makes its calls as a disciplined client whose lists stay in
their roots, and closes it. Beginning a transaction writes the second root, which a
program does not survive where it is not mapped. -/
inductive StoredFile.Left (depth : Nat) : StoredFile → Bool → Prop
  | empty (data : Nat → Image) : Left depth ⟨0, data, []⟩ false
  | closed {file : StoredFile} {initialised overwrite : Bool} {answer : FileAnswer}
      {os : Os} {db : EdbDb} {ops : List Op} {answers : List (Except Int Nat)} {last : Session} :
      Left depth file initialised → os.Succeeds → answer.Grants file overwrite →
      edbOpen answer false overwrite ⟨file.data, closedEdb os⟩ = .ok () db →
      (Op.begin ∈ ops → edbFreelistSecondary < db.ctl.nblocks) →
      Run (depth + 2) (Session.start db (file.keptBy overwrite)) ops answers last →
      last.db.ctl.txn = [] →
      Left depth ⟨last.db.ctl.filesize, last.db.data, last.client.held⟩ (initialised || overwrite)

/-- The calls that a run on the opened file makes. -/
def Op.Following : Op → Prop
  | .begin | .allocate | .create _ | .commit | .abort => True
  | _ => False

/-- The roots and every block that a list names lie in the file, and the items of both
lists have four bytes. -/
structure Session.InFile (s : Session) : Prop where
  reserved : edbObjlist < s.db.ctl.nblocks
  freelist : s.db.ctl.freelist < s.db.ctl.nblocks
  objlist : s.db.ctl.objlist < s.db.ctl.nblocks
  freeSize : ptItemSize s.db s.db.ctl.freelist = 4
  objectSize : ptItemSize s.db s.db.ctl.objlist = 4
  entries : ∀ block ∈ s.freelist ++ s.objects, block < s.db.ctl.nblocks

/-- A database that was opened can be used: its roots are initialised lists inside the
file, and they stay so in every run; every call returns, with a block of the file, and
what lies beyond the file makes no difference. -/
structure UsableDb (depth : Nat) (db : EdbDb) (held : List Nat) : Prop where
  roots : edbObjlist < db.ctl.nblocks
  lists : ∃ free objects, Stack (db.data edbFreelistPrimary) free ∧
    Stack (db.data edbObjlist) objects
  run : ∀ {ops answers last}, (∀ op ∈ ops, op.Following) →
    Run (depth + 2) (Session.start db held) ops answers last →
    last.InFile ∧
    (∀ op, op.Following → last.Inline op →
      ∃ answer next, last.step (depth + 2) op = some (answer, next) ∧
      ∀ block, answer = .ok block → block < next.db.ctl.nblocks) ∧
    ∀ data, (∀ block, block < db.ctl.nblocks → data block = db.data block) →
      ∃ other, Run (depth + 2) (Session.start ⟨data, db.ctl⟩ held) ops answers other

variable {depth : Nat} {file : StoredFile} {initialised overwrite : Bool}
  {answer : FileAnswer} {os : Os}
  {db : EdbDb} {books : Books} {s last : Session} {ops : List Op} {answers : List (Except Int Nat)}

/-! ## Opening -/

/-- A file opened without `overwrite` is mapped, and the roots are taken for granted. -/
theorem edbOpen_plain (grants : answer.Grants file false) (succeeds : os.Succeeds)
    (aligned : file.size &&& blockMask = 0) (small : openedBlocks file.size < 0xffffff00) :
    edbOpen answer false false ⟨file.data, closedEdb os⟩ = .ok ()
      ((ioResized ⟨file.data, { closedEdb os with filesize := file.size }⟩
        (openedBlocks file.size)).withCtl fun ctl =>
        { ctl with readonly := false, freelist := edbFreelistPrimary, objlist := edbObjlist }) := by
  have size : answer.size = file.size := by simpa using grants.size
  have mapped :
      ioResize (openedBlocks file.size) ⟨file.data, { closedEdb os with filesize := file.size }⟩ =
      .ok () (ioResized ⟨file.data, { closedEdb os with filesize := file.size }⟩
        (openedBlocks file.size)) :=
    ioResize_run small succeeds
  have opened : ioOpen answer false false ⟨file.data, closedEdb os⟩ =
      .ok () (ioResized ⟨file.data, { closedEdb os with filesize := file.size }⟩
        (openedBlocks file.size)) := by
    have kept : ∀ db : EdbDb, truncateFile false db = .ok () db := fun _ => rfl
    have present := grants.descriptor
    have sized := grants.fstat
    unfold ioOpen clearEdb EverDb.setCtl
    rw [Code.update_bind, Bool.false_and, if_neg (by decide), Code.update_bind, if_neg (by omega),
      Code.bind_ok (kept _), if_neg (by omega), Code.update_bind]
    unfold ioOpenSized
    rw [Code.gets_bind]
    simp only [Db.withCtl, size]
    rw [if_neg (by simp [aligned])]
    exact Code.onError_ok mapped
  unfold edbOpen
  refine Code.onError_ok ?_
  rw [Code.bind_ok opened]
  rfl

/-- A file that holds the lists of `books`. -/
structure StoredFile.Stores (file : StoredFile) (books : Books) : Prop where
  size : file.size = books.nblocks * 4096
  free : Stack (file.data edbFreelistPrimary) books.free
  objects : Stack (file.data edbObjlist) books.objects
  sound : books.Sound [] file.held

/-- A file that was never initialised. -/
structure StoredFile.Blank (file : StoredFile) : Prop where
  size : file.size = 0 ∨ file.size = 4096
  held : file.held = []

/-- A new file, or one that `O_TRUNC` emptied, is initialised. -/
theorem open_overwrite (grants : answer.Grants file true) (succeeds : os.Succeeds)
    (opened : edbOpen answer false true ⟨file.data, closedEdb os⟩ = .ok () db) :
    (Session.start db []).Keeps [] (.closed ⟨4, [], []⟩) := by
  obtain ⟨fresh, ran, _⟩ := edbOpenNew_run succeeds
  have size : answer.size = 0 := by simpa using grants.size
  have emptied :
      (⟨((⟨file.data, closedEdb os⟩ : EdbDb).clip 0).data, closedEdb os⟩ : EdbDb) = newFile os := by
    simp [Db.clip, newFile]
  have same : edbOpen answer false true ⟨file.data, closedEdb os⟩ = .ok () fresh :=
    edbOpen_new grants.descriptor grants.fstat size succeeds (emptied ▸ ran)
  rw [opened] at same
  cases same
  exact newSession_keeps succeeds ran

/-- A file with lists is mapped as it was. -/
theorem StoredFile.Stores.opened (stores : file.Stores books) (grants : answer.Grants file false)
    (succeeds : os.Succeeds)
    (opened : edbOpen answer false false ⟨file.data, closedEdb os⟩ = .ok () db) :
    (Session.start db file.held).Keeps [] (.closed books) := by
  have user := stores.sound.user
  have bounded := stores.sound.bounded
  have count : openedBlocks file.size = books.nblocks := by
    have shifted : file.size >>> blockBits = books.nblocks := by
      rw [stores.size, Nat.shiftRight_eq_div_pow]
      exact Nat.mul_div_cancel _ (by decide)
    unfold openedBlocks
    rw [shifted, u32_of_lt (by omega), if_neg (by omega)]
  have aligned : file.size &&& blockMask = 0 := by
    rw [show blockMask = 2 ^ 12 - 1 from rfl, Nat.and_two_pow_sub_one_eq_mod, stores.size]
    exact Nat.mul_mod_left _ _
  have plain := edbOpen_plain grants succeeds aligned (by rw [count]; omega)
  rw [opened, count] at plain
  cases plain
  have kept : resizedData ⟨file.data, { closedEdb os with filesize := file.size }⟩
    (fileBytes books.nblocks) =
      file.data := by
    unfold resizedData
    exact if_pos (by rw [fileBytes_of_lt bounded]; exact stores.size)
  refine .closed ⟨⟨rfl, rfl, succeeds, rfl⟩, rfl, rfl, rfl, rfl, ?_, ?_⟩ stores.sound rfl
    (fun _ _ => rfl)
  · change Stack (resizedData _ (fileBytes books.nblocks) 1) books.free
    rw [kept]
    exact stores.free
  · change Stack (resizedData _ (fileBytes books.nblocks) 3) books.objects
    rw [kept]
    exact stores.objects

/-- A blank file is mapped with one block. -/
theorem StoredFile.Blank.opened (blank : file.Blank) (grants : answer.Grants file false)
    (succeeds : os.Succeeds)
    (opened : edbOpen answer false false ⟨file.data, closedEdb os⟩ = .ok () db) :
    db.ctl.nblocks = 1 ∧ db.ctl.filesize = 4096 ∧ db.ctl.readonly = false ∧ db.ctl.txn = [] := by
  have count : file.size &&& blockMask = 0 ∧ openedBlocks file.size = 1 := by
    rcases blank.size with empty | one
    · rw [empty]
      decide
    · rw [one]
      decide
  have plain := edbOpen_plain grants succeeds count.1 (by rw [count.2]; decide)
  rw [opened, count.2] at plain
  cases plain
  exact ⟨rfl, rfl, rfl, rfl⟩

/-! ## What programs leave -/

/-- On a blank file nothing but a begin does anything. -/
theorem Run.blank (run : Run (depth + 2) s ops answers last) (noBegin : Op.begin ∉ ops)
    (writable : s.db.ctl.readonly = false) (closed : s.db.ctl.txn = [])
    (client : s.client = ⟨[], [], [], []⟩) :
    last = s := by
  induction run with
  | done => rfl
  | @call s next last op ops answer answers disciplined inside ran rest ih =>
      have notBegin : op ≠ .begin := fun same => noBegin (same ▸ List.mem_cons_self)
      have noWrite : ∀ block image, op ≠ .write block image := by
        rintro block image rfl
        rw [Client.Disciplined, client] at disciplined
        cases disciplined
      have refused :=
        Session.step_error (refuses_closed writable closed (depth + 1) op noWrite notBegin)
      rw [ran, Option.some.injEq, Prod.mk.injEq] at refused
      obtain ⟨_, rfl⟩ := refused
      exact ih (fun member => noBegin (List.mem_cons_of_mem _ member)) writable closed client

/-- A session that ended well leaves a file with lists. -/
theorem Session.Keeps.stores {bank : Bank} (keeps : s.Keeps [] bank) (closed : s.db.ctl.txn = []) :
    ∃ books, StoredFile.Stores ⟨s.db.ctl.filesize, s.db.data, s.client.held⟩ books := by
  cases keeps with
  | closed settled sound client content =>
      refine ⟨_, ?_, settled.free, settled.objects, sound⟩
      change s.db.ctl.filesize = _
      rw [settled.serves.recorded, settled.nblocks, fileBytes_of_lt sound.bounded]
  | opened tracks sound content saved =>
      rw [tracks.txn] at closed
      cases closed

/-- A file that was never opened with `overwrite` is blank, any other has its lists. -/
theorem StoredFile.Left.spec (left : file.Left depth initialised) :
    if initialised then ∃ books, file.Stores books else file.Blank := by
  induction left with
  | empty data => exact ⟨.inl rfl, rfl⟩
  | @closed file initialised overwrite answer os db ops answers last _ succeeds grants opened
      mapped run ended ih =>
      cases overwrite with
      | true =>
          rw [Bool.or_true, if_pos rfl]
          exact (run.keeps (open_overwrite grants succeeds opened)).2.2.stores ended
      | false =>
          rw [Bool.or_false]
          cases initialised with
          | true =>
              obtain ⟨books, stores⟩ := ih
              exact (run.keeps (stores.opened grants succeeds opened)).2.2.stores ended
          | false =>
              obtain ⟨one, size, writable, closed⟩ :=
                StoredFile.Blank.opened ih grants succeeds opened
              have noBegin : Op.begin ∉ ops := fun member => by
                have := mapped member
                simp only [edbFreelistSecondary] at this
                omega
              have held : file.keptBy false = [] := ih.held
              rw [held] at run
              obtain rfl := run.blank noBegin writable closed rfl
              exact ⟨.inr size, rfl⟩

/-! ## What an opened file is good for -/

theorem Stack.itemSize {root : Nat} {words : List Nat} (stack : Stack (db.data root) words) :
    ptItemSize db root = 4 := stack.array.itemSize

/-- The roots and the lists of a session lie in its file. -/
theorem Session.Keeps.inFile {bank : Bank} (keeps : s.Keeps [] bank) : s.InFile := by
  cases keeps with
  | @closed books settled sound client content =>
      have user := sound.user
      have inside : ∀ block ∈ books.free ++ books.objects, block < books.nblocks := by
        intro block member
        refine (sound.partition.range block ?_).2
        rcases List.mem_append.mp member with free | object
        · simp [free]
        · simp [object]
      have free := settled.free
      have objects := settled.objects
      rw [← settled.freelist] at free
      rw [← settled.objlist] at objects
      refine ⟨?_, ?_, ?_, free.itemSize, objects.itemSize, ?_⟩
      · rw [settled.nblocks]
        exact user
      · rw [settled.nblocks, settled.freelist]
        omega
      · rw [settled.nblocks, settled.objlist]
        omega
      · rw [settled.nblocks, Session.freelist, Session.objects, free.words, objects.words]
        exact inside
  | @opened base l tracks sound content saved =>
      have user := sound.begun.user
      have grown := sound.grown
      have inside : ∀ block ∈ l.free ++ l.objects, block < l.nblocks := by
        intro block member
        refine (sound.range block ?_).2
        rcases List.mem_append.mp member with free | object
        · simp [free]
        · simp [object]
      have free := tracks.free
      have objects := tracks.objects
      rw [← tracks.freelist] at free
      rw [← tracks.objlist] at objects
      refine ⟨?_, ?_, ?_, free.itemSize, objects.itemSize, ?_⟩
      · rw [tracks.nblocks]
        simp only [edbObjlist]
        omega
      · rw [tracks.nblocks, tracks.freelist]
        omega
      · rw [tracks.nblocks, tracks.objlist]
        exact sound.working.objlist.2.1
      · rw [tracks.nblocks, Session.freelist, Session.objects, free.words, objects.words]
        exact inside

/-- A block that the client holds or that is an object's root lies in the file. -/
theorem Session.Keeps.range {base : Books} {l : Ledger}
    (keeps : s.Keeps [] (.opened base l)) {block : Nat}
    (member : block ∈ s.client.held ++ l.objects) : block < s.db.ctl.nblocks := by
  cases keeps with
  | opened tracks sound content saved =>
      rw [tracks.nblocks]
      refine (sound.range block ?_).2
      rcases List.mem_append.mp member with held | object
      · simp [held]
      · simp [object]

/-- A call in a session returns, and what it hands out lies in the file. -/
theorem Session.Keeps.returns {bank : Bank} (keeps : s.Keeps [] bank) (op : Op)
    (following : op.Following) (inside : s.Inline op) (depth : Nat) :
    ∃ answer next, s.step (depth + 2) op = some (answer, next) ∧
      ∀ block, answer = .ok block → block < next.db.ctl.nblocks := by
  have disciplined : s.client.Disciplined op := by
    cases op with
    | modify block => exact following.elim
    | free block => exact following.elim
    | write block image => exact following.elim
    | begin | allocate | create itemSize | commit | abort => trivial
  have fits := (s.inline_iff keeps op).mp inside
  obtain ⟨next, ran, kept⟩ := keeps.step depth op disciplined fits
  refine ⟨_, next, ran, fun block answered => ?_⟩
  have user : 0 < next.db.ctl.nblocks := Nat.lt_of_le_of_lt (Nat.zero_le _) kept.inFile.reserved
  have client := Session.step_client ran
  cases bank with
  | closed books => cases op <;> cases answered <;> exact user
  | opened base l =>
      cases op with
      | allocate =>
          cases answered
          refine kept.range (List.mem_append_left _ ?_)
          rw [client]
          exact List.mem_cons_self
      | create itemSize =>
          cases answered
          refine kept.range (List.mem_append_right _ ?_)
          exact List.mem_append_right _ (List.mem_singleton_self _)
      | modify block => exact following.elim
      | free block => exact following.elim
      | write block image => exact following.elim
      | begin => cases answered
      | commit | abort =>
          cases answered
          exact user

/-- A database whose session keeps its books is usable. -/
theorem Session.Keeps.usable {held : List Nat}
    (keeps : (Session.start db held).Keeps [] (.closed books))
    (depth : Nat) : UsableDb depth db held := by
  obtain ⟨settled, sound⟩ : Settled db books ∧ books.Sound [] held := by
    cases keeps with
    | closed settled sound client content => exact ⟨settled, sound⟩
  refine ⟨keeps.inFile.reserved, ⟨_, _, settled.free, settled.objects⟩, ?_⟩
  intro ops answers last following run
  obtain ⟨_, _, kept⟩ := run.keeps keeps
  refine ⟨kept.inFile, fun op follows inside => kept.returns op follows inside depth,
    fun data same => ?_⟩
  -- the books are read off the roots, which lie in the file
  have user := sound.user
  have nblocks := settled.nblocks
  have alike : (Session.start ⟨data, db.ctl⟩ held).Keeps [] (.closed books) := by
    refine .closed ⟨settled.serves.same_mapping rfl, nblocks, settled.freelist, settled.objlist,
      settled.txn, ?_, ?_⟩ sound rfl (fun _ _ => rfl)
    · change Stack (data 1) books.free
      rw [same 1 (by omega)]
      exact settled.free
    · change Stack (data 3) books.objects
      rw [same 3 (by omega)]
      exact settled.objects
  exact (keeps.alike alike rfl depth).mp ⟨last, run⟩

/-- A missing file: `O_CREAT` makes an empty one. -/
def missingFile : StoredFile := ⟨0, fun _ => Image.zero, []⟩

end EverDb
