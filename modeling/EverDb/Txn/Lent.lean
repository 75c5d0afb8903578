import EverDb.Txn.Contract
import EverDb.Txn.History

/-!
# Code that runs inside a transaction of the client

The array and tree code knows the block functions by their promises only. Lent an open
transaction, it makes a run of the client's calls on blocks of its own: `lentContract`
keeps the promises, and the run is there to commit or to abort.
-/

namespace EverDb

open Foundation

variable {others : List Nat} {base : Books} {first s next : Session} {own : Ownership}
  {db : EdbDb} {l : Ledger}
  {depth block value : Nat} {op : Op} {ops : List Op} {answer : Except Int Nat}
  {answers : List (Except Int Nat)}

/-- A run and one more call. -/
theorem Run.snoc (run : Run depth first ops answers s) (disciplined : s.client.Disciplined op)
    (inside : s.Inline op)
    (ran : s.step depth op = some (answer, next)) :
    Run depth first (ops ++ [op]) (answers ++ [answer]) next := by
  induction run with
  | done => exact .call disciplined inside ran .done
  | call before within stepped _ ih => exact .call before within stepped (ih disciplined inside ran)

/-- The call behind a step that returned a value. -/
theorem Session.step_call (ran : s.step depth op = some (.ok value, next)) :
    op.call depth s.db = .ok value next.db := by
  unfold Session.step at ran
  cases called : op.call depth s.db with
  | ok value db =>
      rw [called] at ran
      cases ran
      rfl
  | error code db =>
      rw [called] at ran
      cases ran
  | stuck =>
      rw [called] at ran
      cases ran

/-- The client's transaction in the hands of other code: the blocks it keeps were returned
to it in this transaction, and the client's own are as they were. -/
structure Lent (depth : Nat) (others : List Nat) (base : Books) (first : Session)
    (own : Ownership) (s : Session) (l : Ledger) : Prop where
  run : ∃ ops answers, (∀ op ∈ ops, op.Inner) ∧ Run (depth + 2) first ops answers s
  keeps : s.Keeps others (.opened base l)
  writable_live : ∀ block, own.writable block → own.live block
  live_usable : ∀ block, own.live block → own.usable block
  usable_kept : ∀ block, own.usable block → own.kept block
  kept_writable : ∀ block, own.kept block → own.writable block
  mine : ∀ block, own.kept block → block ∈ s.client.written ∧ block ∉ first.client.held
  held : ∀ block ∈ first.client.held, block ∈ s.client.held ∧ s.content block = first.content block
  room : rootFits own.room l.free.length l.nblocks

namespace Lent

/-- The ledger is sound for the client. -/
theorem sound (lent : Lent depth others base first own s l) : l.Sound others base s.client := by
  cases lent.keeps with
  | opened tracks sound content saved => exact sound

/-- The ledger tracks the database. -/
theorem tracks (lent : Lent depth others base first own s l) : Tracks s.db base l := by
  cases lent.keeps with
  | opened tracks sound content saved => exact tracks

/-- A block it keeps is one the client holds, and has the bytes it should have. -/
theorem kept (lent : Lent depth others base first own s l) (mine : own.kept block) :
    block ∈ s.client.held ∧ s.db.data block = s.content block := by
  have held := (lent.sound.written block (lent.mine block mine).1).1
  refine ⟨held, ?_⟩
  cases lent.keeps with
  | opened tracks sound content saved => exact content block (by simp [held])

/-- The file has at most 1024 blocks. -/
theorem small (lent : Lent depth others base first own s l) : l.nblocks ≤ 1024 :=
  rootFits_le lent.sound.bounded lent.room

/-- One more call. -/
theorem call (lent : Lent depth others base first own s l) (op : Op) (inner : op.Inner)
    (disciplined : s.client.Disciplined op) (fits : (Bank.opened base l).Fits s.client op) :
    ∃ next, s.step (depth + 2) op = some ((Bank.opened base l).answer op, next) ∧
      next.Keeps others ((Bank.opened base l).next op) ∧
      ∃ ops answers, (∀ op ∈ ops, op.Inner) ∧ Run (depth + 2) first ops answers next := by
  obtain ⟨next, ran, kept⟩ := lent.keeps.step depth op disciplined fits
  obtain ⟨ops, answers, inside, run⟩ := lent.run
  refine ⟨next, ran, kept, ops ++ [op], answers ++ [_], ?_,
    run.snoc disciplined ((Session.inline_iff lent.keeps op).mpr fits) ran⟩
  intro other member
  rcases List.mem_append.mp member with before | last
  · exact inside other before
  · exact List.mem_singleton.mp last ▸ inner

/-- Writing a block that is lent. -/
theorem write (lent : Lent depth others base first own s l)
    (live : own.live block) (image : Image) :
    ∃ next, next.db = s.db.write block image ∧ Lent depth others base first own next l := by
  have kept := lent.usable_kept block (lent.live_usable block live)
  obtain ⟨written, notFirst⟩ := lent.mine block kept
  obtain ⟨next, ran, keeps, run⟩ := lent.call (.write block image) trivial written trivial
  have after := Session.step_after ran
  have called : Outcome.ok 0 (s.db.write block image) = .ok 0 next.db := Session.step_call ran
  have client : next.client = s.client := Session.step_client ran
  refine ⟨next, (Outcome.ok.inj called).2.symm, run, keeps, lent.writable_live, lent.live_usable,
    lent.usable_kept, lent.kept_writable, client ▸ lent.mine, fun other member => ?_, lent.room⟩
  have different : other ≠ block := fun same => notFirst (same ▸ member)
  rw [client, after]
  exact ⟨(lent.held other member).1, (setContent_of_ne different).trans (lent.held other member).2⟩

/-- Taking a block adds it to what is lent. -/
theorem allocate (lent : Lent depth others base first own s l) (positive : 0 < own.room) :
    ∃ new next l', (edbApi (depth + 2)).allocate s.db = .ok new next.db ∧ ¬own.kept new ∧
      Lent depth others base first (own.taken new) next l' ∧
      ∀ other, own.kept other → next.db.data other = s.db.data other := by
  obtain ⟨room, spent⟩ := Nat.exists_eq_add_of_lt positive
  have fits := lent.room
  rw [spent, Nat.zero_add] at fits
  obtain ⟨one, rest⟩ := rootFits_take lent.sound.working fits
  obtain ⟨next, ran, keeps, run⟩ := lent.call .allocate trivial trivial one
  have after := Session.step_after ran
  have client : next.client = s.client.took l.allocate.1 := Session.step_client ran
  have fresh : l.allocate.1 ∉ s.client.held := by
    have once := List.nodup_iff_count_le_one.mp keeps.shares.nodup l.allocate.1
    intro held
    have again := List.one_le_count_iff.mpr held
    rw [client] at once
    simp only [List.count_append, Client.took, List.count_cons_self] at once
    omega
  have different : ∀ other ∈ s.client.held, other ≠ l.allocate.1 :=
    fun other held same => fresh (same ▸ held)
  have content : ∀ other ∈ s.client.held, next.content other = s.content other :=
    fun other held => by
    rw [after]
    exact setContent_of_ne (different other held)
  have new : ∀ block, own.kept block → block ≠ l.allocate.1 :=
    fun block mine => different block (lent.kept mine).1
  have later : Lent depth others base first (own.taken l.allocate.1) next l.allocate.2 := by
    refine ⟨run, keeps, ?_, ?_, ?_, ?_, fun block mine => ?_, fun other member => ?_, ?_⟩
    · exact fun block => Or.imp_left (lent.writable_live block)
    · exact fun block => Or.imp_left (lent.live_usable block)
    · exact fun block => Or.imp_left (lent.usable_kept block)
    · exact fun block => Or.imp_left (lent.kept_writable block)
    · rw [client]
      rcases mine with before | rfl
      · exact ⟨List.mem_cons_of_mem _ (lent.mine block before).1, (lent.mine block before).2⟩
      · exact ⟨List.mem_cons_self, fun there => fresh (lent.held _ there).1⟩
    · obtain ⟨held, same⟩ := lent.held other member
      rw [client]
      exact ⟨List.mem_cons_of_mem _ held, (content other held).trans same⟩
    · have left : (own.taken l.allocate.1).room = room := by simp [Ownership.taken, spent]
      rw [left]
      exact rest
  refine ⟨l.allocate.1, next, _, Session.step_call ran, fun mine => new _ mine rfl, later,
    fun other mine => ?_⟩
  rw [(later.kept (.inl mine)).2, content other (lent.kept mine).1, (lent.kept mine).2]

/-- A block that was returned to it has a state. -/
theorem state (lent : Lent depth others base first own s l) (mine : own.kept block) :
    l.table.get block ≠ 0 ∧ l.table.get block ≠ freed :=
  (lent.sound.written block (lent.mine block mine).1).2

/-- The freelist has room for one of the blocks that the client holds. -/
theorem length_lt (lent : Lent depth others base first own s l) (held : block ∈ s.client.held) :
    l.free.length < 1021 := by
  have total := OnceEach.length lent.keeps.shares
  obtain ⟨free, _, _, nblocks⟩ := lent.keeps.opened_lists
  have small := lent.small
  have some := List.length_pos_of_mem held
  rw [free, nblocks] at total
  simp only [List.length_append] at total
  omega

/-- A block with a state in the table is put on the freelist when it is freed. -/
theorem freeBlock_pushed (state : l.table.get block ≠ 0) :
    (l.freeBlock block).free = l.free ++ [block] ∧ (l.freeBlock block).nblocks = l.nblocks := by
  unfold Ledger.freeBlock
  rw [if_neg state]
  split <;> exact ⟨rfl, rfl⟩

/-- Freeing a block takes it from what is lent. -/
theorem free (lent : Lent depth others base first own s l) (live : own.live block) :
    ∃ next l', (edbApi (depth + 2)).free block s.db = .ok () next.db ∧
      Lent depth others base first (own.freed block) next l' ∧
      ∀ other, own.kept other → next.db.data other = s.db.data other := by
  have mine := lent.usable_kept block (lent.live_usable block live)
  have writable := lent.kept_writable block mine
  have held := (lent.kept mine).1
  have state := (lent.state mine).1
  have room : l.table.get block ≠ 0 → l.free.length < 1021 := fun _ => lent.length_lt held
  obtain ⟨next, ran, keeps, run⟩ := lent.call (.free block) trivial held room
  obtain ⟨after, freed, _, _, same⟩ := lent.tracks.free_run lent.sound held depth room
  have here : next.db = after := by
    have called : Op.call (depth + 2) (.free block) s.db = .ok 0 after := Code.bind_ok freed
    have again := Session.step_call ran
    rw [called] at again
    exact (Outcome.ok.inj again).2.symm
  have client : next.client = s.client.gave block := Session.step_client ran
  have content : next.content = s.content := by rw [Session.step_after ran]; rfl
  obtain ⟨pushed, size⟩ := freeBlock_pushed state
  refine ⟨next, _, here ▸ freed,
    ⟨run, keeps, ?_, ?_, ?_, ?_, fun other kept => ?_, fun other member => ?_, ?_⟩,
    fun other kept => ?_⟩
  · exact fun other given => ⟨lent.writable_live other given.1, given.2⟩
  · exact fun other given => given
  · exact fun other given =>
      ⟨lent.usable_kept other (lent.live_usable other given.1), fun again => given.2 again.2⟩
  · exact fun other given =>
      ⟨lent.kept_writable other given.1, fun again => given.2 ⟨writable, again⟩⟩
  · obtain ⟨written, notFirst⟩ := lent.mine other kept.1
    refine ⟨?_, notFirst⟩
    rw [client]
    exact List.mem_filter.mpr ⟨written, by simpa using fun again => kept.2 ⟨writable, again⟩⟩
  · have different : other ≠ block := fun again => (lent.mine block mine).2 (again ▸ member)
    rw [client, content]
    exact ⟨(List.mem_erase_of_ne different).mpr (lent.held other member).1,
      (lent.held other member).2⟩
  · rw [pushed, size, List.length_append]
    have more : (own.freed block).room = own.room + 1 := if_pos writable
    rw [more]
    exact lent.room
  · have user := lent.sound.range other (by simp [(lent.kept kept).1])
    rw [here]
    exact same other (by omega)

/-- The client commits what the code has made. -/
theorem commits (lent : Lent depth others base first own s l) :
    ∃ next, edbTxnCommit (depth + 2) s.db = .ok () next.db ∧ next.Keeps others (.closed l.commit) ∧
      (∀ block, own.kept block → block ∈ next.client.held ∧ next.db.data block = s.db.data block) ∧
      (∀ block ∈ first.client.held, block ∈ next.client.held ∧
        next.db.data block = first.content block) ∧
      next.db.ctl.nblocks ≤ 1024 ∧ ∃ ops answers, Run (depth + 2) first ops answers next := by
  have total := OnceEach.length lent.keeps.shares
  obtain ⟨free, _, copy, nblocks⟩ := lent.keeps.opened_lists
  have small := lent.small
  have room : l.free.length + s.client.retired.length + l.workingCopy.length ≤ 1021 := by
    rw [free, copy, nblocks] at total
    simp only [List.length_append] at total
    omega
  obtain ⟨next, ran, keeps⟩ := lent.keeps.commit_step (depth + 1) room
  obtain ⟨ops, answers, _, run⟩ := lent.run
  have client : next.client = s.client.committed := Session.step_client ran
  have content : next.content = s.content := by rw [Session.step_after ran]; rfl
  have bytes : ∀ block ∈ s.client.held, next.db.data block = s.content block := by
    cases keeps with
    | closed settled sound _ same =>
        intro block held
        rw [← content]
        exact same block (by rw [client]; simp [Client.committed, held])
  refine ⟨next, ?_, keeps, fun block mine => ?_, fun block member => ?_, ?_, _, _,
    run.snoc (show s.client.Disciplined .commit from trivial)
      ((Session.inline_iff lent.keeps .commit).mpr room) ran⟩
  · obtain ⟨_, _, committed, rest⟩ := Code.of_bind_ok (Session.step_call ran)
    cases rest
    exact committed
  · obtain ⟨held, same⟩ := lent.kept mine
    rw [client, same]
    exact ⟨held, bytes block held⟩
  · obtain ⟨held, same⟩ := lent.held block member
    rw [client, ← same]
    exact ⟨held, bytes block held⟩
  · rw [keeps.closed_lists.2.2.2.1]
    exact small

/-- What is lent is well formed. -/
theorem wf (lent : Lent depth others base first own s l) : own.Wf := by
  have inside : ∀ block, own.kept block → 4 ≤ block ∧ block < l.nblocks := fun block mine =>
    lent.sound.range block (by simp [(lent.kept mine).1])
  have small := lent.small
  refine ⟨lent.writable_live, lent.live_usable, lent.usable_kept, fun block mine => ?_,
    fun block mine => ?_⟩
  · have := inside block mine
    omega
  · have := inside block mine
    omega

end Lent

/-- A transaction that has just begun can be lent. -/
theorem Session.Keeps.lent (keeps : s.Keeps others (.opened base l)) {room : Nat}
    (fits : rootFits room l.free.length l.nblocks) (depth : Nat) :
    Lent depth others base s ⟨fun _ => False, fun _ => False, fun _ => False, fun _ =>
      False, room⟩ s l :=
  ⟨⟨[], [], by simp, .done⟩, keeps, fun _ => id, fun _ => id, fun _ => id, fun _ =>
    id, fun _ => False.elim,
    fun _ member => ⟨member, rfl⟩, fits⟩

/-- The block functions of an open transaction, to code that the client lends it to. -/
def lentContract (depth : Nat) (others : List Nat) (base : Books) (first : Session) :
    BlockContract (edbApi (depth + 2)) where
  Valid own db := ∃ s l, s.db = db ∧ Lent depth others base first own s l
  wf := by
    rintro own db ⟨s, l, _, lent⟩
    exact lent.wf
  write := by
    rintro own _ block ⟨s, l, rfl, lent⟩ live image
    obtain ⟨next, here, later⟩ := lent.write live image
    exact ⟨next, l, here, later⟩
  allocate := by
    rintro own _ ⟨s, l, rfl, lent⟩ positive
    obtain ⟨new, next, l', ran, fresh, later, same⟩ := lent.allocate positive
    exact ⟨new, next.db, ran, fresh, ⟨next, l', rfl, later⟩, same⟩
  modify_writable := by
    rintro own _ block ⟨s, l, rfl, lent⟩ writable
    have state :=
      lent.state
        (lent.usable_kept block (lent.live_usable block (lent.writable_live block writable)))
    exact lent.tracks.modify_run_same lent.sound.table.wf (depth + 1) state.1 state.2
  modify_copy := by
    rintro own _ block ⟨s, l, rfl, lent⟩ usable committed
    exact absurd (lent.kept_writable block (lent.usable_kept block usable)) committed
  free := by
    rintro own _ block ⟨s, l, rfl, lent⟩ live
    obtain ⟨next, l', ran, later, same⟩ := lent.free live
    exact ⟨next.db, ran, ⟨next, l', rfl, later⟩, same⟩

end EverDb
