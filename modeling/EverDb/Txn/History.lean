import EverDb.Txn.Atomic

/-!
# Runs of a client

A run of the calls on a database is a run of its books: which runs there are, what they
answer and the lists they leave depend on the books alone. What the client does not hold
stays as it is through any run.
-/

namespace EverDb

open Foundation

variable {db : EdbDb} {others held : List Nat} {s last : Session} {bank : Bank}
  {base : Books} {l : Ledger}
  {depth block : Nat} {op : Op} {ops : List Op} {answer : Except Int Nat}
  {answers : List (Except Int Nat)}

/-! ## Runs and their books -/

/-- The books can be read off the database. -/
def Bank.Shows (s : Session) : Bank → Prop
  | closed books => s.db.ctl.txn = [] ∧ (⟨s.db.ctl.nblocks, s.freelist, s.objects⟩ : Books) = books
  | opened base l => s.db.ctl.txn = [⟨base.nblocks, l.table⟩] ∧ s.db.ctl.objlist = l.objlist ∧
      (⟨s.db.ctl.nblocks, s.freelist, s.objects⟩ : Books) = l.toBooks

/-- A state shows the bank it keeps to. -/
theorem Session.Keeps.shows (keeps : s.Keeps others bank) : bank.Shows s := by
  cases bank with
  | closed books =>
      obtain ⟨free, objects, _, nblocks, _⟩ := keeps.closed_lists
      cases keeps with
      | closed settled sound client content => exact ⟨settled.txn, by rw [free, objects, nblocks]⟩
  | opened base l =>
      obtain ⟨free, objects, _, nblocks⟩ := keeps.opened_lists
      cases keeps with
      | opened tracks sound content saved =>
          exact ⟨tracks.txn, tracks.objlist, by rw [free, objects, nblocks]⟩

/-- The books of a database between transactions. -/
def Session.books (s : Session) : Bank := .closed ⟨s.db.ctl.nblocks, s.freelist, s.objects⟩

/-- Between transactions, a state keeps to its own books. -/
theorem Between.keeps_books (between : Between db held) :
    (Session.start db held).Keeps (otherBlocks db held) (Session.start db held).books := by
  have keeps := between.keeps
  obtain ⟨_, same⟩ := keeps.shows
  unfold Session.books
  rwa [same]

/-- A client may start over on a database between transactions. -/
theorem Session.Keeps.restart {books : Books} (keeps : s.Keeps others (.closed books)) :
    Between s.db s.client.held ∧
      (Session.start s.db s.client.held).Keeps
      (otherBlocks s.db s.client.held) (.closed books) := by
  obtain ⟨between, free, objects⟩ := keeps.between
  have again := between.keeps
  rw [free, objects, keeps.closed_lists.2.2.2.1] at again
  exact ⟨between, again⟩

/-- The runs on a database between transactions are the runs that its books allow, with
the answers of the books, and they end with the lists of the books. -/
theorem runs_follow_books (between : Between db held) (ops : List Op)
    (answers : List (Except Int Nat)) :
    ((∃ last, Run (depth + 2) (Session.start db held) ops answers last) ↔
      (Session.start db held).books.Allows (Session.start db held).client ops ∧
        answers = (Session.start db held).books.answers ops) ∧
    ∀ last, Run (depth + 2) (Session.start db held) ops answers last →
      (ops.foldl Bank.next (Session.start db held).books).Shows last := by
  have keeps := between.keeps_books
  refine ⟨⟨?_, ?_⟩, fun last run => (run.keeps keeps).2.2.shows⟩
  · rintro ⟨last, run⟩
    obtain ⟨allowed, same, _⟩ := run.keeps keeps
    exact ⟨allowed, same⟩
  · rintro ⟨allowed, rfl⟩
    exact keeps.run depth allowed

/-- A database with one object. -/
theorem createdObject : ∃ db held, Between db held ∧ arrayWords db edbObjlist = [5] ∧
    (Session.start db held).Keeps (otherBlocks db held) (.closed ⟨6, [4], [5]⟩) := by
  obtain ⟨db, opened, _⟩ := edbOpenNew_run grantingOs_succeeds
  have keeps := newSession_keeps grantingOs_succeeds opened
  have allowed : (Bank.closed ⟨4, [], []⟩).Allows ⟨[], [], [], []⟩ [.begin, .create 4,
      .commit] := by decide +kernel
  obtain ⟨last, run⟩ := keeps.run 0 allowed
  have books : [Op.begin, .create 4, .commit].foldl Bank.next (.closed ⟨4, [], []⟩) =
      .closed ⟨6, [4], [5]⟩ :=
    congrArg Bank.closed (by decide +kernel)
  have final := (run.keeps keeps).2.2
  rw [books] at final
  obtain ⟨between, again⟩ := final.restart
  exact ⟨last.db, last.client.held, between, final.between.2.2, again⟩

/-- The abstract machine allows a transaction that creates an object. -/
theorem createdObject_allows (c : Client) :
    (Bank.closed ⟨6, [4], [5]⟩).Allows c [.begin, .create 4] := by
  have fits : (Bank.opened ⟨6, [4], [5]⟩ (Books.begun ⟨6, [4], [5]⟩)).Fits ⟨[], [],
      [], []⟩ (.create 4) := by
    decide +kernel
  exact ⟨trivial, trivial, trivial, fits, trivial⟩

/-- A second object on it. -/
theorem runs_follow_books_created : ∃ db held last, Between db held ∧
    Run 2 (Session.start db held) [.begin, .create 4] [.ok 0, .ok 6] last := by
  obtain ⟨db, held, between, _, keeps⟩ := createdObject
  obtain ⟨_, books⟩ := keeps.shows
  have same : (Session.start db held).books = .closed ⟨6, [4], [5]⟩ := congrArg Bank.closed books
  have follows :
      (∃ last, Run (0 + 2) (Session.start db held) [.begin, .create 4] [.ok 0, .ok 6] last) ↔ _ :=
    (runs_follow_books between _ _).1
  rw [same] at follows
  obtain ⟨last, run⟩ := follows.mpr ⟨createdObject_allows _, by decide +kernel⟩
  exact ⟨db, held, last, between, run⟩

/-! ## What the client does not hold -/

/-- The blocks of a session belong to one list each. -/
theorem Session.Keeps.shares (keeps : s.Keeps others bank) :
    OnceEach (s.freelist ++ (s.client.held ++ s.objects ++ s.workingCopy) ++
      s.client.retired ++ others)
      s.db.ctl.nblocks := by
  intro block
  cases bank with
  | closed books =>
      obtain ⟨free, objects, copy, nblocks, retired⟩ := keeps.closed_lists
      cases keeps with
      | closed settled sound client content =>
      have counted := sound.partition block
      rw [free, objects, copy, nblocks, retired]
      simp only [List.count_append, List.count_nil] at counted ⊢
      omega
  | opened base l =>
      obtain ⟨free, objects, copy, nblocks⟩ := keeps.opened_lists
      cases keeps with
      | opened tracks sound content saved =>
      have counted := sound.partition block
      rw [free, objects, copy, nblocks]
      simp only [List.count_append] at counted ⊢
      omega

/-- A partition lists all blocks of the file but the fixed ones. -/
theorem OnceEach.length {blocks : List Nat} {nblocks : Nat} (each : OnceEach blocks nblocks) :
    blocks.length = nblocks - 4 := by
  have perm : blocks.Perm (List.range' 4 (nblocks - 4)) := by
    rw [List.perm_iff_count]
    intro block
    rw [each block, List.count_range_1']
    simp only [edbUserData]
    split <;> split <;> omega
  rw [perm.length_eq, List.length_range']

/-- No list of a session names a block that belongs to nobody. -/
theorem Session.Keeps.others_apart (keeps : s.Keeps others bank) (member : block ∈ others) :
    block ∉ s.freelist ++ (s.client.held ++ s.objects ++ s.workingCopy) ++
      s.client.retired := fun named =>
  (List.nodup_append.mp keeps.shares.nodup).2.2 block named block member rfl

/-- Neither the freelist nor the client has an object or a block that belongs to
nobody. -/
theorem Session.Keeps.bystander_apart (keeps : s.Keeps others bank)
    (member : block ∈ s.objects ++ others) :
    block ∉ s.freelist ∧ block ∉ s.client.held := by
  have once := List.nodup_iff_count_le_one.mp keeps.shares.nodup block
  have positive := List.one_le_count_iff.mpr member
  simp only [List.count_append] at once positive
  constructor
  · intro free
    have again := List.one_le_count_iff.mpr free
    omega
  · intro held
    have again := List.one_le_count_iff.mpr held
    omega

/-- A step that returned a value. -/
theorem Session.step_after {value : Nat} {next : Session}
    (ran : s.step depth op = some (.ok value, next)) :
    next = s.after op value next.db := by
  unfold Session.step at ran
  cases called : op.call depth s.db with
  | ok value db =>
      rw [called] at ran
      cases ran
      rfl
  | error code db =>
      rw [called] at ran
      cases ran
  | stuck =>
      rw [called] at ran
      cases ran

/-- A step that failed. -/
theorem Session.step_failed {code : Int} {next : Session}
    (ran : s.step depth op = some (.error code, next)) :
    next = { s with db := next.db } := by
  unfold Session.step at ran
  cases called : op.call depth s.db with
  | ok value db =>
      rw [called] at ran
      cases ran
  | error code db =>
      rw [called] at ran
      cases ran
      rfl
  | stuck =>
      rw [called] at ran
      cases ran

/-- The object list of the books starts with the given objects. -/
def Bank.Lists (objects : List Nat) : Bank → Prop
  | closed books => objects <+: books.objects
  | opened base l => objects <+: base.objects ∧ objects <+: l.objects

/-- Taking a block leaves the list of objects. -/
theorem Ledger.take_objects (l : Ledger) : l.take.2.objects = l.objects := by
  unfold take
  split <;> rfl

/-- Modifying a block leaves the list of objects. -/
theorem Ledger.modify_objects (l : Ledger) (block : Nat) :
    (l.modify block).2.objects = l.objects := by
  unfold modify
  split
  · exact l.take_objects
  · rfl

/-- Creating an object puts its root last. -/
theorem Ledger.create_objects (l : Ledger) : l.create.2.objects = l.objects ++ [l.create.1] :=
  congrArg (· ++ _) (l.openObjlist.take_objects.trans (l.modify_objects l.objlist))

/-- Objects are only appended. -/
theorem Bank.Lists.next {objects : List Nat} (lists : bank.Lists objects) (op : Op) :
    (bank.next op).Lists objects := by
  cases bank with
  | closed books =>
      cases op with
      | begin => exact ⟨lists, lists⟩
      | _ => exact lists
  | opened base l =>
      obtain ⟨atBegin, now⟩ := lists
      cases op with
      | begin => exact ⟨atBegin, now⟩
      | write block image => exact ⟨atBegin, now⟩
      | commit => exact now
      | abort => exact atBegin
      | allocate => exact ⟨atBegin, l.take_objects.symm ▸ now⟩
      | modify block => exact ⟨atBegin, (l.modify_objects block).symm ▸ now⟩
      | create itemSize =>
          exact ⟨atBegin, l.create_objects.symm ▸ now.trans (List.prefix_append _ _)⟩
      | free block =>
          refine ⟨atBegin, ?_⟩
          unfold Ledger.freeBlock
          split
          · exact now
          · split <;> exact now

/-- A bystander of the first state is one of the last. -/
theorem Bank.Lists.member {objects : List Nat} (lists : bank.Lists objects)
    (keeps : s.Keeps others bank)
    (bystander : block ∈ objects ++ others) : block ∈ s.objects ++ others := by
  refine (List.mem_append.mp bystander).elim (fun object => List.mem_append_left _ ?_)
    (List.mem_append_right _)
  cases bank with
  | closed books => exact keeps.closed_lists.2.1 ▸ lists.subset object
  | opened base l => exact keeps.opened_lists.2.1 ▸ lists.2.subset object

/-- A session remembers the bytes of the given objects and of the blocks that belong to
nobody, also for an abort. -/
structure Session.Remembers (data : Nat → Image) (objects others : List Nat) (bank : Bank)
    (s : Session) : Prop where
  lists : bank.Lists objects
  content : ∀ block ∈ objects ++ others, s.content block = data block
  saved : ∀ base l, bank = .opened base l → ∀ block ∈ objects ++ others, s.saved block = data block

namespace Session.Remembers

variable {data : Nat → Image} {objects : List Nat} {next : Session}

/-- A bystander has the bytes of before. -/
theorem stays (remembers : s.Remembers data objects others bank) (keeps : s.Keeps others bank)
    (bystander : block ∈ objects ++ others) : s.db.data block = data block := by
  have there := remembers.lists.member keeps bystander
  refine Eq.trans ?_ (remembers.content block bystander)
  cases keeps with
  | closed settled sound client content =>
      refine content block ?_
      rw [Session.objects, settled.objlist, show arrayWords s.db 3 =
        _ from settled.objects.words] at there
      simp only [List.mem_append] at there ⊢
      tauto
  | opened tracks sound content saved =>
      refine content block ?_
      rw [Session.objects, tracks.objlist, tracks.objects.words] at there
      simp only [List.mem_append] at there ⊢
      tauto

/-- A call that gives a block of its own new bytes. -/
theorem update {after : Bank} {new : Nat} {image : Image}
    (remembers : s.Remembers data objects others (.opened base l))
    (lists : after.Lists objects) (content : next.content = setContent s.content new image)
    (saved : next.saved = s.saved) (apart : new ∉ objects ++ others) :
    next.Remembers data objects others after := by
  refine ⟨lists, fun block bystander => ?_, fun _ _ _ => saved ▸ remembers.saved base l rfl⟩
  have different : block ≠ new := fun same => apart (same ▸ bystander)
  rw [content, setContent_of_ne different]
  exact remembers.content block bystander

/-- A block of the client is nobody's object. -/
theorem held_apart (lists : bank.Lists objects) (keeps : s.Keeps others bank)
    (held : block ∈ s.client.held) :
    block ∉ objects ++ others := fun bystander =>
  (keeps.bystander_apart (lists.member keeps bystander)).2 held

/-- One call. -/
theorem step (remembers : s.Remembers data objects others bank) (keeps : s.Keeps others bank)
    (disciplined : s.client.Disciplined op) (ran : s.step depth op = some (bank.answer op, next))
    (kept : next.Keeps others (bank.next op)) :
    next.Remembers data objects others (bank.next op) := by
  have lists := remembers.lists.next op
  have client := Session.step_client ran
  cases bank with
  | closed books =>
      cases op with
      | begin =>
          have after := Session.step_after ran
          refine ⟨lists, fun block bystander => ?_, fun _ _ _ block bystander => ?_⟩
          · rw [after]
            exact remembers.content block bystander
          · rw [after]
            exact remembers.stays keeps bystander
      | write block image =>
          cases keeps with
          | closed settled sound client content =>
          have none : s.client.written = [] := (congrArg Client.written client).symm
          have member : block ∈ s.client.written := disciplined
          rw [none] at member
          cases member
      | _ =>
          rw [Session.step_failed ran]
          exact ⟨lists, remembers.content, fun _ _ opened => by cases opened⟩
  | opened base l =>
      cases op with
      | begin =>
          rw [Session.step_failed ran]
          exact ⟨lists, remembers.content, fun _ _ _ => remembers.saved base l rfl⟩
      | allocate =>
          have after := Session.step_after ran
          refine remembers.update lists (by rw [after]; rfl) (by rw [after]; rfl)
            (held_apart lists kept ?_)
          rw [client]
          exact List.mem_cons_self
      | modify block =>
          have after := Session.step_after ran
          refine remembers.update lists (by rw [after]; rfl) (by rw [after]; rfl)
            (held_apart lists kept ?_)
          rw [client]
          change _ ∈ (s.client.moved block (l.modify block).1).held
          unfold Client.moved
          split
          · rename_i same
            rw [same]
            exact disciplined
          · exact List.mem_cons_self
      | free block =>
          rw [Session.step_after ran]
          exact ⟨lists, remembers.content, fun _ _ _ => remembers.saved base l rfl⟩
      | create itemSize =>
          have after := Session.step_after ran
          refine remembers.update lists (by rw [after]; rfl) (by rw [after]; rfl)
            fun bystander => ?_
          -- the new root comes behind the objects of before
          have once := List.nodup_iff_count_le_one.mp kept.shares.nodup l.create.1
          have listed : next.objects = l.objects ++ [l.create.1] :=
            kept.opened_lists.2.1.trans l.create_objects
          have before := keeps.opened_lists.2.1 ▸ remembers.lists.member keeps bystander
          have positive := List.one_le_count_iff.mpr before
          rw [listed] at once
          simp only [List.count_append, List.count_singleton_self] at once positive
          omega
      | write block image =>
          have after := Session.step_after ran
          refine remembers.update lists (by rw [after]; rfl) (by rw [after]; rfl)
            (held_apart remembers.lists keeps ?_)
          cases keeps with
          | opened tracks sound content saved => exact (sound.written block disciplined).1
      | commit =>
          rw [Session.step_after ran]
          exact ⟨lists, remembers.content, fun _ _ opened => by cases opened⟩
      | abort =>
          rw [Session.step_after ran]
          exact ⟨lists, remembers.saved base l rfl, fun _ _ opened => by cases opened⟩

/-- A run. -/
theorem run (run : Run (depth + 2) s ops answers last)
    (remembers : s.Remembers data objects others bank)
    (keeps : s.Keeps others bank) :
    last.Remembers data objects others (ops.foldl Bank.next bank) := by
  induction run generalizing bank with
  | done => exact remembers
  | call disciplined inside ran _ ih =>
      have fits := (Session.inline_iff keeps _).mp inside
      obtain ⟨next, stepped, kept⟩ := keeps.step depth _ disciplined fits
      have same := stepped
      rw [ran, Option.some.injEq, Prod.mk.injEq] at same
      obtain ⟨rfl, rfl⟩ := same
      exact ih (remembers.step keeps disciplined ran kept) kept

end Session.Remembers

/-- The first state remembers itself. -/
theorem Session.start_remembers (db : EdbDb) (held : List Nat) :
    (Session.start db held).Remembers db.data (arrayWords db edbObjlist) (otherBlocks db held)
      (.closed ⟨db.ctl.nblocks, arrayWords db 1, arrayWords db 3⟩) :=
  ⟨List.prefix_rfl, fun _ _ => rfl, fun _ _ opened => by cases opened⟩

/-- What a run leaves alone: the objects that were there, and the blocks in use that
nobody names. -/
structure Bystanders (db : EdbDb) (held : List Nat) (last : Session) : Prop where
  listed : arrayWords db edbObjlist <+: last.objects
  bytes :
    ∀ block ∈ arrayWords db edbObjlist ++ otherBlocks db held, last.db.data block = db.data block
  apart : ∀ block ∈ arrayWords db edbObjlist ++ otherBlocks db held,
    block ∉ last.freelist ∧ block ∉ last.client.held

/-- In every state that the client reaches, the objects of before are listed as before,
and they and the blocks that nobody names have the bytes of before and belong to nobody
else. -/
theorem bystanders_untouched (between : Between db held)
    (run : Run (depth + 2) (Session.start db held) ops answers last) :
    Bystanders db held last := by
  have keeps := between.keeps
  have remembers := Session.Remembers.run run (Session.start_remembers db held) keeps
  obtain ⟨_, _, kept⟩ := run.keeps keeps
  refine ⟨?_, fun block bystander => remembers.stays kept bystander,
    fun block bystander => kept.bystander_apart (remembers.lists.member kept bystander)⟩
  have lists := remembers.lists
  generalize ops.foldl Bank.next _ = bank at kept lists
  cases bank with
  | closed books => exact kept.closed_lists.2.1 ▸ lists
  | opened base l => exact kept.opened_lists.2.1 ▸ lists.2

/-- A second object leaves the first alone. -/
theorem bystanders_untouched_created : ∃ db held last, Between db held ∧
    arrayWords db edbObjlist = [5] ∧
    Run 2 (Session.start db held) [.begin, .create 4] [.ok 0, .ok 6] last ∧
    Bystanders db held last := by
  obtain ⟨db, held, between, listed, keeps⟩ := createdObject
  obtain ⟨last, run⟩ := keeps.run 0 (createdObject_allows _)
  have answers : (Bank.closed ⟨6, [4], [5]⟩).answers [.begin, .create 4] = [.ok 0, .ok 6] := by
    decide +kernel
  rw [answers] at run
  exact ⟨db, held, last, between, listed, run, bystanders_untouched between run⟩

end EverDb
