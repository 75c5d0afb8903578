import EverDb.Txn.Refine

/-!
# Every block has one owner

Read off the database and the client, with no bookkeeping: in every state that a
disciplined client reaches from a new database, the freelist, the client, the
objects and the blocks retired by the open transaction share out the blocks.
-/

namespace EverDb

open Foundation

variable {os : Os} {db : EdbDb} {others : List Nat} {s : Session} {books base : Books} {l : Ledger}
  {depth : Nat}

/-- The handle that `edb_open` starts from on an empty file. -/
def newFile (os : Os) : EdbDb := ⟨fun _ => Image.zero, closedEdb os⟩

/-- A new database has four blocks, empty lists and no handles. -/
theorem edbOpenNew_run (succeeds : os.Succeeds) :
    ∃ db, edbOpenNew (newFile os) = .ok () db ∧ Settled db ⟨4, [], []⟩ ∧ db.ctl.handles = [] ∧
      db.ctl.txnId = 0 := by
  let rooted : EdbDb := (ioResized (newFile os) 1).withCtl
    fun ctl => { ctl with freelist := 1, objlist := 3 }
  let sized : EdbDb := ioResized rooted 4
  have first : ioResize 1 (newFile os) = .ok () (ioResized (newFile os) 1) :=
    ioResize_run (by decide) succeeds
  have second : ioResize edbUserData rooted = .ok () sized := ioResize_run (by decide) succeeds
  have init : edbInit rooted =
      .ok () ((sized.write 1 (emptyArray 4)).write 3 (emptyArray 4)) := by
    unfold edbInit
    rw [Code.bind_ok second, Code.gets_bind, show sized.ctl.freelist = 1 from rfl,
      Code.bind_ok (arrayInit_run _ _ _), Code.gets_bind,
      show (sized.write 1 (emptyArray 4)).ctl.objlist = 3 from rfl, arrayInit_run]
  refine ⟨(sized.write 1 (emptyArray 4)).write 3 (emptyArray 4), ?_,
    ⟨⟨rfl, rfl, succeeds, rfl⟩, rfl, rfl, rfl, rfl, ?_, ?_⟩, rfl, rfl⟩
  · unfold edbOpenNew
    rw [Code.bind_ok first, Code.bind_ok (setCtl_run _ _)]
    exact init
  · rw [Db.write_data_of_ne (by decide), Db.write_data_self]
    exact Stack.empty
  · rw [Db.write_data_self]
    exact Stack.empty

/-- A new database keeps empty books. -/
theorem newSession_keeps (succeeds : os.Succeeds) (opened : edbOpenNew (newFile os) = .ok () db) :
    (Session.start db []).Keeps [] (.closed ⟨4, [], []⟩) := by
  obtain ⟨fresh, ran, settled, _⟩ := edbOpenNew_run succeeds
  rw [opened] at ran
  cases ran
  exact .closed settled newBooks_sound rfl fun _ _ => rfl

/-- Each block has one owner: the freelist, the client, an object, the working copy
of the object list, or the open transaction that retired it. -/
def Session.Partitioned (s : Session) : Prop :=
  OnceEach (s.freelist ++ (s.client.held ++ s.objects ++ s.workingCopy) ++ s.client.retired)
    s.db.ctl.nblocks

/-- What the calls do next in a session. -/
structure Session.Promises (depth : Nat) (s : Session) : Prop where
  /-- Every call returns. -/
  returns : ∀ op, s.client.Disciplined op → s.Inline op → (s.step depth op).isSome
  /-- Begin inside a transaction fails and changes nothing. -/
  begin_refused : s.db.ctl.txn ≠ [] →
    s.step depth .begin = some (.error edbErrTxnNotImplemented, s)
  /-- Outside a transaction the other calls fail and change nothing. -/
  refused : s.db.ctl.txn = [] → ∀ op, s.client.Disciplined op → op ≠ .begin →
    s.step depth op = some (.error edbErrTxnNoTransaction, s)
  /-- The block allocated has no owner but the freelist. -/
  allocate : s.db.ctl.txn ≠ [] → s.Inline .allocate →
    ∃ block next, s.step depth .allocate = some (.ok block, next) ∧ edbUserData ≤ block ∧
      block ∉ s.client.held ++ s.objects ++ s.workingCopy ++ s.client.retired
  /-- Commit succeeds; the retired blocks and the working copy join the freelist. -/
  commit : s.db.ctl.txn ≠ [] → s.Inline .commit →
    ∃ next moved, s.step depth .commit = some (.ok 0, next) ∧
      next.freelist = s.freelist ++ moved ∧ moved.Perm (s.workingCopy ++ s.client.retired)

/-- The lists of a session with an open transaction. -/
theorem Session.Keeps.opened_lists (keeps : s.Keeps others (.opened base l)) :
    s.freelist = l.free ∧ s.objects = l.objects ∧ s.workingCopy = l.workingCopy ∧
      s.db.ctl.nblocks = l.nblocks := by
  cases keeps with
  | opened tracks sound content saved =>
  refine ⟨?_, ?_, ?_, tracks.nblocks⟩
  · rw [Session.freelist, tracks.freelist]
    exact tracks.free.words
  · rw [Session.objects, tracks.objlist]
    exact tracks.objects.words
  · rw [Session.workingCopy, Ledger.workingCopy, tracks.objlist]

/-- The lists of a session without a transaction. -/
theorem Session.Keeps.closed_lists (keeps : s.Keeps others (.closed books)) :
    s.freelist = books.free ∧ s.objects = books.objects ∧ s.workingCopy = [] ∧
      s.db.ctl.nblocks = books.nblocks ∧ s.client.retired = [] := by
  cases keeps with
  | closed settled sound client content =>
  refine ⟨?_, ?_, ?_, settled.nblocks, (congrArg Client.retired client).symm⟩
  · rw [Session.freelist, settled.freelist]
    exact settled.free.words
  · rw [Session.objects, settled.objlist]
    exact settled.objects.words
  · rw [Session.workingCopy, if_pos settled.objlist]

/-- Sessions that keep books with no other blocks are partitioned. -/
theorem Session.Keeps.partitioned {bank : Bank} (keeps : s.Keeps [] bank) : s.Partitioned := by
  intro block
  cases bank with
  | closed books =>
      obtain ⟨free, objects, copy, nblocks, retired⟩ := keeps.closed_lists
      cases keeps with
      | closed settled sound client content =>
      have counted := sound.partition block
      rw [free, objects, copy, nblocks, retired]
      simp only [List.count_append, List.count_nil] at counted ⊢
      omega
  | opened base l =>
      obtain ⟨free, objects, copy, nblocks⟩ := keeps.opened_lists
      cases keeps with
      | opened tracks sound content saved =>
      have counted := sound.partition block
      rw [free, objects, copy, nblocks]
      simp only [List.count_append, List.count_nil] at counted ⊢
      omega

/-- Sessions that keep books keep the promises of the calls. -/
theorem Session.Keeps.promises {bank : Bank} (keeps : s.Keeps others bank) (depth : Nat) :
    s.Promises (depth + 2) := by
  have steps := fun op disciplined inside =>
    keeps.step depth op disciplined ((Session.inline_iff keeps op).mp inside)
  refine ⟨?_, ?_, ?_, ?_, ?_⟩
  · intro op disciplined inside
    obtain ⟨next, ran, _⟩ := steps op disciplined inside
    rw [ran]
    rfl
  · intro open'
    cases keeps with
    | closed settled sound client content => exact absurd settled.txn open'
    | opened tracks sound content saved =>
        exact Session.step_error (Code.bind_error (tracks.begin_run sound (depth + 1)))
  · intro shut op disciplined notBegin
    cases keeps with
    | opened tracks sound content saved =>
        rw [tracks.txn] at shut
        cases shut
    | closed settled sound client content =>
        refine Session.step_error (settled.refuses (depth + 1) op ?_ notBegin)
        rintro block image rfl
        have none : s.client.written = [] := (congrArg Client.written client).symm
        have member : block ∈ s.client.written := disciplined
        rw [none] at member
        cases member
  · intro open' inside
    obtain ⟨next, ran, _⟩ := steps .allocate trivial inside
    cases bank with
    | closed books =>
        cases keeps with
        | closed settled sound client content => exact absurd settled.txn open'
    | opened base l =>
        obtain ⟨free, objects, copy, nblocks⟩ := keeps.opened_lists
        have fits := (Session.inline_iff keeps .allocate).mp inside
        cases keeps with
        | opened tracks sound content saved =>
        have taken := Ledger.take_spec sound.bounded fits
        refine ⟨_, next, ran, (sound.taken_range taken).1, ?_⟩
        rw [objects, copy]
        intro member
        have counted := sound.partition l.allocate.1
        have positive := List.one_le_count_iff.mpr member
        simp only [List.count_append] at counted positive
        rcases taken.fresh with there | ⟨above, _⟩
        · have again := List.one_le_count_iff.mpr there
          change 1 ≤ l.free.count l.allocate.1 at again
          split at counted <;> omega
        · change l.nblocks ≤ l.allocate.1 at above
          split at counted <;> omega
  · intro open' inside
    obtain ⟨next, ran, after⟩ := steps .commit trivial inside
    cases bank with
    | closed books =>
        cases keeps with
        | closed settled sound client content => exact absurd settled.txn open'
    | opened base l =>
        obtain ⟨free, objects, copy, nblocks⟩ := keeps.opened_lists
        obtain ⟨later, _⟩ := Session.Keeps.closed_lists after
        cases keeps with
        | opened tracks sound content saved =>
        refine ⟨next, l.table.items.filterMap l.pushedFor, ran, ?_, ?_⟩
        · rw [later, free]
          rfl
        · rw [copy]
          exact sound.pushed_perm

/-- Block ownership is a partition in every state that a disciplined client reaches
from a new database, and the calls keep their promises there. -/
theorem blocks_partitioned (succeeds : os.Succeeds) (opened : edbOpenNew (newFile os) = .ok () db)
    {ops : List Op} {answers : List (Except Int Nat)}
    (run : Run (depth + 2) (Session.start db []) ops answers s) :
    s.Partitioned ∧ s.Promises (depth + 2) := by
  obtain ⟨_, _, keeps⟩ := run.keeps (newSession_keeps succeeds opened)
  exact ⟨keeps.partitioned, keeps.promises depth⟩

/-- A transaction that allocates a block, creates an object and frees the block. -/
theorem blocks_partitioned_run :
    ∃ db answers s, edbOpenNew (newFile grantingOs) = .ok () db ∧
      Run 2 (Session.start db []) [.begin, .allocate, .create 4, .free 4, .commit] answers s ∧
      s.Partitioned ∧ s.Promises 2 := by
  obtain ⟨db, opened, _⟩ := edbOpenNew_run grantingOs_succeeds
  have allowed : (Bank.closed ⟨4, [], []⟩).Allows ⟨[], [], [], []⟩
      [.begin, .allocate, .create 4, .free 4, .commit] := by decide +kernel
  obtain ⟨s, run⟩ := (newSession_keeps grantingOs_succeeds opened).run 0 allowed
  exact ⟨db, _, s, opened, run, blocks_partitioned grantingOs_succeeds opened run⟩

end EverDb
