import EverDb.Txn.Session

/-!
# Every call keeps the books

A call of a disciplined client whose lists stay in their roots answers what the
books answer, and leaves a session that keeps the books after that call.
-/

namespace EverDb

open Foundation

variable {others : List Nat} {s : Session} {db : EdbDb} {base books : Books} {l : Ledger}
  {depth block : Nat}

/-- A step whose call returned a value. -/
theorem Session.step_ok (op : Op) {value : Nat} (ran : op.call depth s.db = .ok value db) :
    s.step depth op = some (.ok value, s.after op value db) := by
  simp only [Session.step, ran]

/-- A step whose call failed without a change. -/
theorem Session.step_error {op : Op} {code : Int} (ran : op.call depth s.db = .error code s.db) :
    s.step depth op = some (.error code, s) := by
  simp only [Session.step, ran]

/-- Without a transaction every call but begin is refused. -/
theorem refuses_closed (writable : db.ctl.readonly = false) (closed : db.ctl.txn = [])
    (depth : Nat) (op : Op)
    (other : ∀ block image, op ≠ .write block image) (notBegin : op ≠ .begin) :
    op.call (depth + 1) db = .error edbErrTxnNoTransaction db := by
  have none := requireTxn_none closed
  have ready : requireWritable db = .ok () db := by simp [requireWritable, writable]
  have modify : ∀ block, (edbApi (depth + 1)).modify block db = .error edbErrTxnNoTransaction db :=
    fun block => Code.bind_error none
  cases op with
  | begin => exact absurd rfl notBegin
  | allocate => exact Code.bind_error none
  | modify block => exact modify block
  | free block => exact Code.bind_error (Code.bind_error none)
  | create itemSize =>
      have refused : objCreate (edbApi (depth + 1)) db = .error edbErrTxnNoTransaction db := by
        unfold objCreate
        rw [Code.gets_bind, Code.bind_error (modify _)]
      exact Code.bind_error (Code.bind_error refused)
  | write block image => exact absurd rfl (other block image)
  | commit =>
      refine Code.bind_error ?_
      unfold edbTxnCommit
      rw [Code.bind_ok ready]
      exact Code.bind_error none
  | abort =>
      refine Code.bind_error ?_
      unfold edbTxnAbort
      rw [Code.bind_ok ready]
      exact Code.bind_error none

theorem Settled.refuses (settled : Settled db books) (depth : Nat) (op : Op)
    (other : ∀ block image, op ≠ .write block image) (notBegin : op ≠ .begin) :
    op.call (depth + 1) db = .error edbErrTxnNoTransaction db :=
  refuses_closed settled.serves.writable settled.txn depth op other notBegin

theorem setContent_self {content : Nat → Image} {image : Image} :
    setContent content block image block = image := by simp [setContent]

theorem setContent_of_ne {content : Nat → Image} {image : Image} {other : Nat}
    (apart : other ≠ block) : setContent content block image other = content other := by
  simp [setContent, apart]

namespace Session.Keeps

/-- `edb_txn_begin` opens the books. -/
theorem begin_step (keeps : s.Keeps others (.closed books)) (depth : Nat) :
    ∃ next, s.step depth .begin = some (.ok 0, next) ∧
      next.Keeps others (.opened books books.begun) := by
  cases keeps with
  | closed settled sound client content =>
  obtain ⟨after, ran, tracks, _, _, same⟩ := settled.begin_run sound depth
  have opened := sound.begun.2
  have user :
      ∀ block ∈ s.client.held ++ books.objects ++ others, after.data block = s.content block := by
    intro block member
    have range := sound.partition.range block (by
      simp only [List.mem_append] at member ⊢
      tauto)
    rw [same block (by omega), content block member]
  have called : Op.call depth .begin s.db = .ok 0 after := Code.bind_ok ran
  refine ⟨_, Session.step_ok _ called, .opened tracks opened user ?_⟩
  intro block live
  exact same block (opened.live_apart live).1

/-- `edb_allocate_block` takes a block. -/
theorem allocate_step (keeps : s.Keeps others (.opened base l)) (depth : Nat)
    (fits : takesFit 1 l.free.length l.nblocks) :
    ∃ next, s.step (depth + 2) .allocate = some (.ok l.allocate.1, next) ∧
      next.Keeps others (.opened base l.allocate.2) := by
  cases keeps with
  | opened tracks sound content saved =>
  obtain ⟨after, ran, tracked, _, same⟩ := tracks.allocate_run sound.working depth fits
  have later := sound.allocate fits
  have grown := sound.grown
  refine ⟨_, Session.step_ok .allocate ran, .opened tracked later ?_ ?_⟩
  · intro block member
    by_cases new : block = l.allocate.1
    · subst new
      exact setContent_self.symm
    · have old : block ∈ s.client.held ++ l.objects ++ others := by
        have objects : l.allocate.2.objects = l.objects :=
          (Ledger.take_spec sound.bounded fits).objects
        simp only [Session.after, Client.after, Client.took, objects, List.cons_append,
          List.mem_cons] at member
        exact member.resolve_left new
      have range := sound.user_range _ old
      exact (same block (by omega) range.2).trans
        ((content block old).trans (setContent_of_ne new).symm)
  · intro block live
    obtain ⟨notRoot, within, _⟩ := sound.live_apart live
    exact (same block notRoot (by omega)).trans (saved block live)

/-- `edb_modify_block` of a held block returns a writable block with its bytes. -/
theorem modify_step (keeps : s.Keeps others (.opened base l)) (depth : Nat)
    (held : block ∈ s.client.held)
    (fits : l.table.get block = 0 → takesFit 1 l.free.length l.nblocks) :
    ∃ next, s.step (depth + 2) (.modify block) = some (.ok (l.modify block).1, next) ∧
      next.Keeps others (.opened base (l.modify block).2) := by
  cases keeps with
  | opened tracks sound content saved =>
  have later := sound.modify held fits
  have grown := sound.grown
  have inside := sound.range block (by simp [held])
  by_cases fresh : l.table.get block = 0
  · have taken := Ledger.take_spec sound.bounded (fits fresh)
    have range := sound.taken_range taken
    have moved : l.modify block = (l.take.1, l.take.2.set l.take.1 block) := by
      simp [Ledger.modify, fresh]
    rw [moved] at later ⊢
    simp only at later ⊢
    obtain ⟨table, effect, changed⟩ := sound.taken_effect taken block
    obtain ⟨after, ran, tracked, _, copied, same⟩ :=
      tracks.modify_run_copy sound.working depth fresh inside.2 (by omega) (fits fresh)
    refine ⟨_, Session.step_ok (.modify block) ran, .opened tracked later ?_ ?_⟩
    · intro other member
      by_cases new : other = l.take.1
      · subst new
        rw [show (s.after (.modify block) l.take.1 after).db.data l.take.1 = _ from copied]
        exact (content block (by simp [held])).trans setContent_self.symm
      · have objects : (l.take.2.set l.take.1 block).objects = l.objects := by
          rw [changed]
          exact taken.objects
        have old : other ∈ s.client.held ++ l.objects ++ others := by
          rw [objects] at member
          simp only [Session.after, Client.after, Client.moved, List.mem_append] at member ⊢
          split at member
          · exact member
          · rcases member with (there | there) | there
            · rcases List.mem_cons.mp there with h | h
              · exact absurd h new
              · exact .inl (.inl (List.mem_of_mem_erase h))
            · exact .inl (.inr there)
            · exact .inr there
        have within := sound.user_range _ old
        exact (same other (by omega) new within.2).trans
          ((content other old).trans (setContent_of_ne new).symm)
    · intro other live
      have unchanged : (s.after (.modify block) l.take.1 after).client.saved = s.client.saved := by
        simp only [Session.after, Client.after, Client.moved]
        split <;> rfl
      have small := sound.bounded
      obtain ⟨notRoot, within, apart⟩ := later.live_apart live
      have different := apart l.take.1 range.1 (by rw [changed, effect.get, if_pos rfl]; omega)
        (by
          rw [changed, effect.get, if_pos rfl]
          simp only [freed]
          omega)
      unfold LiveAtBegin at live
      rw [unchanged] at live
      exact (same other notRoot different (by omega)).trans (saved other live)
  · have moved : l.modify block = (block, l) := by simp [Ledger.modify, fresh]
    rw [moved] at later ⊢
    have states := sound.held_state held
    have ran := tracks.modify_run_same sound.table.wf (depth + 1) fresh
      (by
        have small := sound.bounded
        simp only [freed]
        simp only [allocated] at states
        omega)
    refine ⟨_, Session.step_ok (.modify block) ran, ?_⟩
    have kept : s.client.moved block block = s.client := by simp [Client.moved]
    refine .opened tracks later ?_ ?_
    · intro other member
      have old : other ∈ s.client.held ++ l.objects ++ others := by
        simpa only [Session.after, Client.after, kept] using member
      rw [show (s.after (.modify block) block s.db).content =
        setContent s.content block (s.content block) from rfl]
      by_cases here : other = block
      · rw [here, setContent_self, ← content block (by simp [held])]
        rfl
      · rw [setContent_of_ne here, ← content other old]
        rfl
    · intro other live
      rw [show (s.after (.modify block) block s.db).client = s.client from kept] at live
      exact saved other live

/-- `edb_free_block` of a held block. -/
theorem free_step (keeps : s.Keeps others (.opened base l)) (depth : Nat)
    (held : block ∈ s.client.held) (room : l.table.get block ≠ 0 → l.free.length < 1021) :
    ∃ next, s.step (depth + 2) (.free block) = some (.ok 0, next) ∧
      next.Keeps others (.opened base (l.freeBlock block)) := by
  cases keeps with
  | opened tracks sound content saved =>
  obtain ⟨after, ran, tracked, _, same⟩ := tracks.free_run sound held depth room
  obtain ⟨freedBy, later⟩ := sound.freeBlock held
  have objects : (l.freeBlock block).objects = l.objects := by
    cases freedBy with
    | marked _ _ eq => rw [eq]
    | dropped _ _ eq => rw [eq]
    | undone _ _ _ _ eq => rw [eq]
  have called : Op.call (depth + 2) (.free block) s.db = .ok 0 after := Code.bind_ok ran
  refine ⟨_, Session.step_ok _ called, .opened tracked later ?_ ?_⟩
  · intro other member
    have old : other ∈ s.client.held ++ l.objects ++ others := by
      rw [objects] at member
      simp only [Session.after, Client.after, Client.gave, List.mem_append] at member ⊢
      rcases member with (there | there) | there
      · exact .inl (.inl (List.mem_of_mem_erase there))
      · exact .inl (.inr there)
      · exact .inr there
    have within := sound.user_range _ old
    exact (same other (by omega)).trans (content other old)
  · intro other live
    exact (same other (sound.live_apart live).1).trans (saved other live)

/-- `edb_array_create` takes a root, and a copy of the object list when it must. -/
theorem create_step (keeps : s.Keeps others (.opened base l)) (depth : Nat) (itemSize : UInt8)
    (fits : l.CreateFits) :
    ∃ next, s.step (depth + 2) (.create itemSize) = some (.ok l.create.1, next) ∧
      next.Keeps others (.opened base l.create.2) := by
  cases keeps with
  | opened tracks sound content saved =>
  obtain ⟨after, ran, tracked, handles, _, root, same⟩ :=
    tracks.create_run sound depth itemSize.toNat fits
  have later := sound.create fits
  obtain ⟨objects, copied, list, new⟩ := sound.created fits
  have user := (later.user_range l.create.1 (by simp [objects])).1
  have grown := sound.grown
  have found : handleAt s.db.ctl.handles.length after =
      .ok ⟨l.objects.length, s.db.ctl.txnId, l.create.1⟩ after := by
    unfold handleAt
    rw [handles, List.getElem?_concat_length, Code.ofOption_some]
  have called : Op.call (depth + 2) (.create itemSize) s.db = .ok l.create.1 after := by
    change (edbArrayCreate (depth + 2) itemSize.toNat >>= _) s.db = _
    rw [Code.bind_ok ran, Code.bind_ok found]
    rfl
  refine ⟨_, Session.step_ok _ called, .opened tracked later ?_ ?_⟩
  · intro other member
    have apart := later.ne_workingCopy copied member
    rw [objects] at member
    by_cases here : other = l.create.1
    · subst here
      exact root.trans setContent_self.symm
    · have old : other ∈ s.client.held ++ l.objects ++ others := by
        simp only [Session.after, Client.after, List.mem_append, List.mem_singleton] at member ⊢
        rcases member with (held | listed | new) | rest
        · exact .inl (.inl held)
        · exact .inl (.inr listed)
        · exact absurd new here
        · exact .inr rest
      have within := sound.user_range _ old
      exact (same other (by omega) here apart within.2).trans
        ((content other old).trans (setContent_of_ne here).symm)
  · intro other live
    obtain ⟨notRoot, within, apart⟩ := later.live_apart live
    have notList := apart l.create.2.objlist copied (by omega) (by rw [list]; decide)
    have notNew := apart l.create.1 user (by rw [new]; decide) (by rw [new]; decide)
    exact (same other notRoot notNew notList (by omega)).trans (saved other live)

/-- Writing a block that this transaction returned. -/
theorem write_step (keeps : s.Keeps others (.opened base l)) (depth : Nat)
    (written : block ∈ s.client.written) (image : Image) :
    ∃ next, s.step depth (.write block image) = some (.ok 0, next) ∧
      next.Keeps others (.opened base l) := by
  cases keeps with
  | opened tracks sound content saved =>
  obtain ⟨held, used, usable⟩ := sound.written block written
  have range := sound.range block (by simp [held])
  have called : Op.call depth (.write block image) s.db = .ok 0 (s.db.write block image) := rfl
  refine ⟨_, Session.step_ok _ called, .opened
    (tracks.write range.1 (sound.held_ne_objlist held) image) sound ?_ ?_⟩
  · intro other member
    by_cases here : other = block
    · subst here
      exact (Db.write_data_self _ _ _).trans setContent_self.symm
    · exact (Db.write_data_of_ne here).trans
        ((content other member).trans (setContent_of_ne here).symm)
  · intro other live
    have apart := (sound.live_apart live).2.2 block range.1 used usable
    exact (Db.write_data_of_ne apart).trans (saved other live)

/-- `edb_txn_commit` pushes the retired blocks and closes the books. -/
theorem commit_step (keeps : s.Keeps others (.opened base l)) (depth : Nat)
    (room : l.free.length + s.client.retired.length + l.workingCopy.length ≤ 1021) :
    ∃ next, s.step (depth + 1) .commit = some (.ok 0, next) ∧
      next.Keeps others (.closed l.commit) := by
  cases keeps with
  | opened tracks sound content saved =>
  have pushed := sound.pushed_perm.length_eq
  rw [List.length_append] at pushed
  obtain ⟨after, ran, settled, _, _, same⟩ := tracks.commit_run sound depth (by omega)
  have called : Op.call (depth + 1) .commit s.db = .ok 0 after := Code.bind_ok ran
  refine ⟨_, Session.step_ok _ called, .closed settled sound.commit rfl ?_⟩
  intro other member
  have within := sound.user_range _ member
  exact (same other within.1).trans (content other member)

/-- `edb_txn_abort` puts the books of begin back; the bytes in use at begin are there. -/
theorem abort_step (keeps : s.Keeps others (.opened base l)) (depth : Nat) :
    ∃ next, s.step depth .abort = some (.ok 0, next) ∧ next.Keeps others (.closed base) ∧
      ∀ block, LiveAtBegin others base s.client block → next.db.data block = s.saved block := by
  cases keeps with
  | opened tracks sound content saved =>
  obtain ⟨after, ran, settled, _, _, same⟩ := tracks.abort_run sound depth
  have called : Op.call depth .abort s.db = .ok 0 after := Code.bind_ok ran
  have bytes : ∀ block, LiveAtBegin others base s.client block → after.data block = s.saved block :=
    fun block live => (same block (sound.live_apart live).2.1).trans (saved block live)
  exact ⟨_, Session.step_ok _ called,
    .closed settled sound.begun rfl fun block member => bytes block (.inr (.inr member)), bytes⟩

/-- Every call answers what the books answer and keeps the books. -/
theorem step {bank : Bank} (keeps : s.Keeps others bank) (depth : Nat) (op : Op)
    (disciplined : s.client.Disciplined op) (fits : bank.Fits s.client op) :
    ∃ next, s.step (depth + 2) op = some (bank.answer op, next) ∧
    next.Keeps others (bank.next op) := by
  cases bank with
  | closed books =>
      by_cases begins : op = .begin
      · subst begins
        exact keeps.begin_step (depth + 2)
      by_cases writes : ∃ block image, op = .write block image
      · obtain ⟨block, image, rfl⟩ := writes
        cases keeps with
        | closed settled sound client content =>
        have none : s.client.written = [] := (congrArg Client.written client).symm
        have member : block ∈ s.client.written := disciplined
        rw [none] at member
        cases member
      have other : ∀ block image, op ≠ .write block image :=
        fun block image h => writes ⟨block, image, h⟩
      have refused : s.step (depth + 2) op = some (.error edbErrTxnNoTransaction, s) := by
        cases keeps with
        | closed settled sound client content =>
        exact Session.step_error (settled.refuses (depth + 1) op other begins)
      refine ⟨s, ?_, ?_⟩
      · cases op <;> first | exact refused | exact absurd rfl begins | exact absurd rfl (other _ _)
      · cases op <;> first | exact keeps | exact absurd rfl begins
  | opened base l =>
      cases op with
      | begin =>
          refine ⟨s, ?_, keeps⟩
          cases keeps with
          | opened tracks sound content saved =>
          exact Session.step_error (Code.bind_error (tracks.begin_run sound (depth + 1)))
      | allocate => exact keeps.allocate_step depth fits
      | modify block => exact keeps.modify_step depth disciplined fits
      | free block => exact keeps.free_step depth disciplined fits
      | create itemSize =>
          refine keeps.create_step depth itemSize ?_
          obtain ⟨takes, lists⟩ := fits
          cases keeps with
          | opened tracks sound content saved =>
          by_cases primary : l.table.get l.objlist = 0
          · rw [if_pos primary] at takes
            obtain ⟨first, second⟩ := Ledger.takesFit_two takes
            refine ⟨fun _ => first, ?_, lists⟩
            simp only [Ledger.openObjlist, Ledger.modify, if_pos primary]
            exact second
          · rw [if_neg primary] at takes
            refine ⟨fun zero => absurd zero primary, ?_, lists⟩
            simp only [Ledger.openObjlist, Ledger.modify, if_neg primary]
            exact takes
      | write block image => exact keeps.write_step (depth + 2) disciplined image
      | commit => exact keeps.commit_step (depth + 1) fits
      | abort =>
          obtain ⟨next, ran, kept, _⟩ := keeps.abort_step (depth + 2)
          exact ⟨next, ran, kept⟩

end Session.Keeps

/-- The client's knowledge changes with the answer alone. -/
theorem Session.step_client {op : Op} {answer : Except Int Nat} {next : Session}
    (ran : s.step depth op = some (answer, next)) :
    next.client = s.client.next op answer := by
  unfold Session.step at ran
  cases called : op.call depth s.db with
  | ok value db =>
      rw [called] at ran
      cases ran
      rfl
  | error code db =>
      rw [called] at ran
      cases ran
      rfl
  | stuck =>
      rw [called] at ran
      cases ran

/-- Only begin changes the bytes to go back to. -/
theorem Session.step_saved {op : Op} {answer : Except Int Nat} {next : Session}
    (ran : s.step depth op = some (answer, next)) :
    next.saved = s.saved ∨ op = .begin ∧ next.saved = s.db.data := by
  unfold Session.step at ran
  cases called : op.call depth s.db with
  | ok value db =>
      rw [called] at ran
      cases ran
      cases op <;> first | exact .inl rfl | exact .inr ⟨rfl, rfl⟩
  | error code db =>
      rw [called] at ran
      cases ran
      exact .inl rfl
  | stuck =>
      rw [called] at ran
      cases ran

/-- A run is allowed by the books, which know its answers, and keeps them. -/
theorem Run.keeps {bank : Bank} {ops : List Op} {answers : List (Except Int Nat)} {last : Session}
    (run : Run (depth + 2) s ops answers last) (keeps : s.Keeps others bank) :
    bank.Allows s.client ops ∧ answers = bank.answers ops ∧
      last.Keeps others (ops.foldl Bank.next bank) := by
  induction run generalizing bank with
  | done => exact ⟨trivial, rfl, keeps⟩
  | call disciplined inside ran _ ih =>
      have fits := (Session.inline_iff keeps _).mp inside
      obtain ⟨next, stepped, kept⟩ := keeps.step depth _ disciplined fits
      rw [ran, Option.some.injEq, Prod.mk.injEq] at stepped
      obtain ⟨rfl, rfl⟩ := stepped
      obtain ⟨allowed, rfl, final⟩ := ih kept
      rw [Session.step_client ran] at allowed
      exact ⟨⟨disciplined, fits, allowed⟩, rfl, final⟩

/-- The calls that the books allow run, with the answers of the books. -/
theorem Session.Keeps.run {bank : Bank} {ops : List Op} (keeps : s.Keeps others bank) (depth : Nat)
    (allowed : bank.Allows s.client ops) :
    ∃ last, Run (depth + 2) s ops (bank.answers ops) last := by
  induction ops generalizing s bank with
  | nil => exact ⟨s, .done⟩
  | cons op ops ih =>
      obtain ⟨disciplined, fits, rest⟩ := allowed
      obtain ⟨next, ran, kept⟩ := keeps.step depth _ disciplined fits
      rw [← Session.step_client ran] at rest
      obtain ⟨last, run⟩ := ih kept rest
      exact ⟨last, .call disciplined ((Session.inline_iff keeps op).mpr fits) ran run⟩

end EverDb
