import EverDb.Txn.Partition

/-!
# Transactions are atomic at the block level

An aborted transaction leaves no trace that a client can see: the lists and every
byte in use are as before, and all later calls answer as if it had not happened. A
committed one leaves every block with the bytes last copied or written into it.
-/

namespace EverDb

open Foundation

variable {db : EdbDb} {held : List Nat} {depth : Nat}

/-- A database between transactions, with the blocks its client holds. -/
structure Between (db : EdbDb) (held : List Nat) : Prop where
  serves : db.Serves
  txn : db.ctl.txn = []
  freelist : db.ctl.freelist = edbFreelistPrimary
  objlist : db.ctl.objlist = edbObjlist
  user : edbUserData ≤ db.ctl.nblocks
  bounded : db.ctl.nblocks < 1048576
  free : Stack (db.data edbFreelistPrimary) (arrayWords db edbFreelistPrimary)
  objects : Stack (db.data edbObjlist) (arrayWords db edbObjlist)
  distinct : (arrayWords db edbFreelistPrimary ++ held ++ arrayWords db edbObjlist).Nodup
  inside : ∀ block ∈ arrayWords db edbFreelistPrimary ++ held ++ arrayWords db edbObjlist,
    edbUserData ≤ block ∧ block < db.ctl.nblocks

/-- The blocks in use that neither the freelist nor the client nor the object list
names. -/
def otherBlocks (db : EdbDb) (held : List Nat) : List Nat :=
  (List.range' 4 (db.ctl.nblocks - 4)).filter
    (· ∉ arrayWords db edbFreelistPrimary ++ held ++ arrayWords db edbObjlist)

theorem Between.keeps (between : Between db held) :
    (Session.start db held).Keeps (otherBlocks db held)
      (.closed ⟨db.ctl.nblocks, arrayWords db 1, arrayWords db 3⟩) := by
  refine .closed ⟨between.serves, rfl, between.freelist, between.objlist, between.txn, between.free,
    between.objects⟩ ⟨between.user, between.bounded, ?_⟩ rfl (fun _ _ => rfl)
  intro block
  have user : 4 ≤ db.ctl.nblocks := between.user
  have named := between.distinct.count (a := block)
  change (arrayWords db 1 ++ held ++ arrayWords db 3 ++ otherBlocks db held).count block =
    if 4 ≤ block ∧ block < db.ctl.nblocks then 1 else 0
  have rest : (otherBlocks db held).count block =
      if block ∈ otherBlocks db held then 1 else 0 :=
    (List.Nodup.filter _ List.nodup_range').count
  rw [List.count_append, rest]
  simp only [edbFreelistPrimary, edbObjlist] at named
  rw [named]
  by_cases member : block ∈ arrayWords db 1 ++ held ++ arrayWords db 3
  · have range := between.inside block member
    have notOther : block ∉ otherBlocks db held := by
      intro there
      have apart := (List.mem_filter.mp there).2
      exact absurd member (by simpa using apart)
    rw [if_pos member, if_neg notOther, if_pos range]
  · have other : block ∈ otherBlocks db held ↔ 4 ≤ block ∧ block < db.ctl.nblocks := by
      rw [otherBlocks, List.mem_filter, List.mem_range'_1]
      simp only [member, not_false_iff, decide_true, and_true]
      omega
    rw [if_neg member]
    by_cases range : 4 ≤ block ∧ block < db.ctl.nblocks
    · rw [if_pos (other.mpr range), if_pos range]
    · rw [if_neg (fun there => range (other.mp there)), if_neg range]

/-- The calls inside a transaction. -/
def Op.Inner : Op → Prop
  | .begin | .commit | .abort => False
  | _ => True

/-- What an aborted transaction leaves. -/
structure Undone (depth : Nat) (first last : Session) : Prop where
  nblocks : last.db.ctl.nblocks = first.db.ctl.nblocks
  freelist : last.freelist = first.freelist
  objects : last.objects = first.objects
  bytes : ∀ block, block = edbFreelistPrimary ∨ block = edbObjlist ∨
    edbUserData ≤ block ∧ block < first.db.ctl.nblocks ∧ block ∉ first.freelist →
    last.db.data block = first.db.data block
  /-- A later run returns the same answers as if nothing had happened. -/
  later : ∀ ops answers,
    (∃ after, Run depth last ops answers after) ↔ ∃ after, Run depth first ops answers after

variable {others : List Nat} {s t last : Session} {bank : Bank} {ops : List Op}
  {answers : List (Except Int Nat)}

/-- Sessions with the same books and the same client answer alike. -/
theorem Session.Keeps.alike (keeps : s.Keeps others bank) (same : t.Keeps others bank)
    (client : t.client = s.client) (depth : Nat) :
    (∃ after, Run (depth + 2) s ops answers after) ↔
    ∃ after, Run (depth + 2) t ops answers after := by
  constructor
  · rintro ⟨after, run⟩
    obtain ⟨allowed, rfl, _⟩ := run.keeps keeps
    exact same.run depth (client ▸ allowed)
  · rintro ⟨after, run⟩
    obtain ⟨allowed, rfl, _⟩ := run.keeps same
    exact keeps.run depth (client ▸ allowed)

/-- A call inside a transaction leaves its begin alone. -/
theorem Session.Keeps.inner_step {base : Books} {l : Ledger} {op : Op} {answer : Except Int Nat}
    {next : Session} (keeps : s.Keeps others (.opened base l)) (inner : op.Inner)
    (disciplined : s.client.Disciplined op) (inside : s.Inline op)
    (ran : s.step (depth + 2) op = some (answer, next)) :
    ∃ ledger, next.Keeps others (.opened base ledger) ∧ next.client.saved = s.client.saved ∧
      next.saved = s.saved := by
  have saved : next.saved = s.saved := by
    rcases Session.step_saved ran with same | ⟨rfl, _⟩
    · exact same
    · exact absurd inner (by simp [Op.Inner])
  obtain ⟨after, stepped, kept⟩ :=
    keeps.step depth op disciplined ((Session.inline_iff keeps op).mp inside)
  rw [ran, Option.some.injEq, Prod.mk.injEq] at stepped
  obtain ⟨rfl, rfl⟩ := stepped
  have client := Session.step_client ran
  cases op with
  | begin => exact absurd inner (by simp [Op.Inner])
  | commit => exact absurd inner (by simp [Op.Inner])
  | abort => exact absurd inner (by simp [Op.Inner])
  | allocate => exact ⟨_, kept, by rw [client]; rfl, saved⟩
  | free block => exact ⟨_, kept, by rw [client]; rfl, saved⟩
  | create itemSize => exact ⟨_, kept, by rw [client]; rfl, saved⟩
  | write block image => exact ⟨_, kept, by rw [client]; rfl, saved⟩
  | modify block =>
      refine ⟨_, kept, ?_, saved⟩
      rw [client]
      simp only [Client.next, Bank.answer, Client.after, Client.moved]
      split <;> rfl

/-- Calls inside a transaction leave its begin alone. -/
theorem Run.inner_keeps {base : Books} {l : Ledger} (run : Run (depth + 2) s ops answers last)
    (keeps : s.Keeps others (.opened base l)) (inner : ∀ op ∈ ops, op.Inner) :
    ∃ ledger, last.Keeps others (.opened base ledger) ∧ last.client.saved = s.client.saved ∧
      last.saved = s.saved := by
  induction run generalizing l with
  | done => exact ⟨l, keeps, rfl, rfl⟩
  | call disciplined inside ran _ ih =>
      obtain ⟨ledger, kept, client, saved⟩ :=
        keeps.inner_step (inner _ List.mem_cons_self) disciplined inside ran
      obtain ⟨final, done, clients, same⟩ :=
        ih kept (fun op member => inner op (List.mem_cons_of_mem _ member))
      exact ⟨final, done, clients.trans client, same.trans saved⟩

/-- A transaction on a database between transactions: what its calls leave before
commit or abort. -/
theorem Between.enter {tail : Op} (between : Between db held) (inner : ∀ op ∈ ops, op.Inner)
    (run : Run (depth + 2) (Session.start db held) (.begin :: ops ++ [tail]) answers last) :
    ∃ (mid : Session) (answer : Except Int Nat) (ledger : Ledger), mid.Keeps (otherBlocks db held)
        (.opened ⟨db.ctl.nblocks, arrayWords db 1, arrayWords db 3⟩ ledger) ∧
      mid.client.saved = held ∧ mid.saved = db.data ∧ mid.Inline tail ∧
      mid.step (depth + 2) tail = some (answer, last) := by
  cases run with
  | call disciplined inside ran rest =>
      obtain ⟨entered, stepped, kept⟩ := between.keeps.begin_step (depth + 2)
      have client := Session.step_client ran
      rw [ran, Option.some.injEq, Prod.mk.injEq] at stepped
      obtain ⟨rfl, rfl⟩ := stepped
      obtain ⟨mid, _, inside, _, fits, answer, ended⟩ := rest.last_call
      obtain ⟨ledger, opened, saved, bytes⟩ := inside.inner_keeps kept inner
      refine ⟨mid, answer, ledger, opened, ?_, ?_, fits, ended⟩
      · rw [saved, client]
        rfl
      · rw [bytes]
        rcases Session.step_saved ran with same | ⟨_, same⟩ <;> exact same

/-- An abort undoes the transaction; a commit keeps the bytes last copied or written. -/
theorem transaction_atomic (between : Between db held) (inner : ∀ op ∈ ops, op.Inner) :
    (∀ {answers last},
      Run (depth + 2) (Session.start db held) (.begin :: ops ++ [.abort]) answers last →
      Undone (depth + 2) (Session.start db held) last) ∧
    (∀ {answers last},
      Run (depth + 2) (Session.start db held) (.begin :: ops ++ [.commit]) answers last →
      ∀ block ∈ last.client.held ++ last.objects, last.db.data block = last.content block) := by
  have start := between.keeps
  obtain ⟨startFree, startObjects, _, _, _⟩ := start.closed_lists
  constructor
  · intro answers last run
    obtain ⟨mid, answer, ledger, keeps, saved, bytes, _, ran⟩ := between.enter inner run
    have client := Session.step_client ran
    obtain ⟨after, stepped, kept, live⟩ := keeps.abort_step (depth + 2)
    rw [ran, Option.some.injEq, Prod.mk.injEq] at stepped
    obtain ⟨rfl, rfl⟩ := stepped
    obtain ⟨free, objects, _, nblocks, _⟩ := kept.closed_lists
    refine ⟨nblocks, free.trans startFree.symm, objects.trans startObjects.symm, ?_, ?_⟩
    · intro block inUse
      have used : LiveAtBegin (otherBlocks db held)
          ⟨db.ctl.nblocks, arrayWords db 1, arrayWords db 3⟩ mid.client block := by
        rcases inUse with h | h | ⟨user, inside, notFree⟩
        · exact .inl h
        · exact .inr (.inl h)
        · refine .inr (.inr ?_)
          rw [saved]
          cases start with
          | closed settled sound client content =>
          have counted := sound.partition block
          rw [if_pos ⟨user, inside⟩] at counted
          rw [startFree] at notFree
          have member := List.one_le_count_iff.mp (Nat.le_of_eq counted.symm)
          simp only [List.mem_append] at member ⊢
          rcases member with ((h | h) | h) | h
          · exact absurd h notFree
          · exact .inl (.inl h)
          · exact .inl (.inr h)
          · exact .inr h
      rw [live block used, bytes]
      rfl
    · intro later answers
      refine kept.alike start ?_ depth
      rw [client]
      simp only [Client.next, Client.after, Client.aborted, saved]
      rfl
  · intro answers last run
    obtain ⟨mid, answer, ledger, keeps, _, _, fits, ran⟩ := between.enter inner run
    obtain ⟨after, stepped, kept⟩ :=
      keeps.commit_step (depth + 1) ((Session.inline_iff keeps .commit).mp fits)
    rw [ran, Option.some.injEq, Prod.mk.injEq] at stepped
    obtain ⟨rfl, rfl⟩ := stepped
    obtain ⟨_, objects, _⟩ := kept.closed_lists
    cases kept with
    | closed settled sound client content =>
    intro block member
    rw [objects] at member
    exact content block (List.mem_append_left _ member)

/-- A session without a transaction is between transactions. -/
theorem Session.Keeps.between {books : Books} (keeps : s.Keeps others (.closed books)) :
    Between s.db s.client.held ∧ arrayWords s.db 1 = books.free ∧
    arrayWords s.db 3 = books.objects := by
  cases keeps with
  | closed settled sound client content =>
  have free := settled.free.words
  have objects := settled.objects.words
  have named : (books.free ++ s.client.held ++ books.objects).Nodup :=
    (List.nodup_append.mp sound.partition.nodup).1
  refine ⟨⟨settled.serves, settled.txn, settled.freelist, settled.objlist, ?_, ?_, ?_, ?_, ?_, ?_⟩,
    free, objects⟩
  · rw [settled.nblocks]
    exact sound.user
  · rw [settled.nblocks]
    exact sound.bounded
  · simp only [edbFreelistPrimary, free]
    exact settled.free
  · simp only [edbObjlist, objects]
    exact settled.objects
  · simp only [edbFreelistPrimary, edbObjlist, free, objects]
    exact named
  · simp only [edbFreelistPrimary, edbObjlist, free, objects, settled.nblocks]
    intro block member
    exact sound.partition.range block (List.mem_append_left _ member)

/-- A committed block is copied and written, and an object created; then abort, or
commit. -/
theorem transaction_atomic_held :
    ∃ db undone kept answers answers',
      Run 2 (Session.start db [4])
        (.begin :: [.modify 4, .write 5 Image.zero, .create 4] ++ [.abort]) answers undone ∧
      Undone 2 (Session.start db [4]) undone ∧
      Run 2 (Session.start db [4])
        (.begin :: [.modify 4, .write 5 Image.zero, .create 4] ++ [.commit]) answers' kept ∧
      ∀ block ∈ kept.client.held ++ kept.objects, kept.db.data block = kept.content block := by
  obtain ⟨fresh, opened, _⟩ := edbOpenNew_run grantingOs_succeeds
  obtain ⟨one, ran1, keeps1⟩ := (newSession_keeps grantingOs_succeeds opened).begin_step 2
  obtain ⟨two, ran2, keeps2⟩ := keeps1.allocate_step 0 ⟨by decide, trivial⟩
  have client : two.client = ⟨[4], [4], [], []⟩ := by
    rw [Session.step_client ran2, Session.step_client ran1]
    change (Client.next ⟨[], [], [], []⟩ .begin (.ok 0)).next .allocate
      (.ok (Books.begun ⟨4, [], []⟩).allocate.1) = _
    decide +kernel
  obtain ⟨three, ran3, keeps3⟩ := keeps2.commit_step 1 (by rw [client]; decide +kernel)
  have held : three.client.held = [4] := by
    rw [Session.step_client ran3]
    change two.client.held = [4]
    rw [client]
  obtain ⟨between, free, objects⟩ := keeps3.between
  rw [held] at between
  have books : (⟨three.db.ctl.nblocks, arrayWords three.db 1, arrayWords three.db 3⟩ : Books) =
      ⟨5, [], []⟩ := by
    rw [free, objects, keeps3.closed_lists.2.2.2.1]
    decide +kernel
  have keeps := between.keeps
  rw [books] at keeps
  have inner : ∀ op ∈ [Op.modify 4, .write 5 Image.zero, .create 4], op.Inner := by
    simp [Op.Inner]
  have undoes : (Bank.closed ⟨5, [], []⟩).Allows ⟨[4], [], [4], []⟩
      (.begin :: [.modify 4, .write 5 Image.zero, .create 4] ++ [.abort]) := by decide +kernel
  have keepsBytes : (Bank.closed ⟨5, [], []⟩).Allows ⟨[4], [], [4], []⟩
      (.begin :: [.modify 4, .write 5 Image.zero, .create 4] ++ [.commit]) := by decide +kernel
  obtain ⟨undone, aborted⟩ := keeps.run 0 undoes
  obtain ⟨kept, committed⟩ := keeps.run 0 keepsBytes
  exact ⟨three.db, undone, kept, _, _, aborted, (transaction_atomic between inner).1 aborted,
    committed, (transaction_atomic between inner).2 committed⟩

end EverDb
