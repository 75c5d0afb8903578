import EverDb.Edb.NewFile
import EverDb.Txn.History

/-!
# Opening a file again

A file that is closed between transactions and opened again without `overwrite` is the
database that was closed. A program that is killed inside a transaction leaves the roots
of begin, since only commit writes them: the next `edb_open` finds the lists and the bytes
of begin, and loses the blocks by which the file had grown since.
-/

namespace EverDb

open Foundation

variable {depth : Nat} {file : StoredFile} {initialised overwrite : Bool}
  {answer again : FileAnswer} {os os' : Os}
  {db : EdbDb} {held others : List Nat} {books base : Books} {l : Ledger}
  {s last killed : Session} {ops : List Op}
  {answers : List (Except Int Nat)}

/-- A file of whole blocks is mapped as it is. -/
theorem edbOpen_whole (grants : answer.Grants file false) (succeeds : os.Succeeds) {nblocks : Nat}
    (size : file.size = nblocks * 4096) (some : 0 < nblocks) (bounded : nblocks < 1048576) :
    ∃ db, edbOpen answer false false ⟨file.data, closedEdb os⟩ = .ok () db ∧
    db.data = file.data ∧ db.Serves ∧
      db.ctl.nblocks = nblocks ∧ db.ctl.freelist = edbFreelistPrimary ∧
      db.ctl.objlist = edbObjlist ∧
      db.ctl.txn = [] ∧ db.ctl.handles = [] ∧ db.ctl.txnId = 0 := by
  have count : openedBlocks file.size = nblocks := by
    have shifted : file.size >>> blockBits = nblocks := by
      rw [size, Nat.shiftRight_eq_div_pow]
      exact Nat.mul_div_cancel _ (by decide)
    unfold openedBlocks
    rw [shifted, u32_of_lt (by omega), if_neg (by omega)]
  have aligned : file.size &&& blockMask = 0 := by
    rw [show blockMask = 2 ^ 12 - 1 from rfl, Nat.and_two_pow_sub_one_eq_mod, size]
    exact Nat.mul_mod_left _ _
  have opened := edbOpen_plain grants succeeds aligned (by rw [count]; omega)
  rw [count] at opened
  refine ⟨_, opened, ?_, ⟨rfl, rfl, succeeds, rfl⟩, rfl, rfl, rfl, rfl, rfl, rfl⟩
  change resizedData ⟨file.data, { closedEdb os with filesize := file.size }⟩ (fileBytes nblocks) =
    file.data
  unfold resizedData
  exact if_pos (by rw [fileBytes_of_lt bounded]; exact size)

/-- The file that a session leaves: `edb_close` changes neither its bytes nor its length
(`Closes`), and a program that is killed makes no call at all. -/
def Session.leaves (s : Session) (held : List Nat) : StoredFile :=
  ⟨s.db.ctl.filesize, s.db.data, held⟩

/-- The file of a session has the blocks that its books count. -/
theorem Db.Serves.size (serves : db.Serves) {nblocks : Nat} (counted : db.ctl.nblocks = nblocks)
    (bounded : nblocks < 1048576) : db.ctl.filesize = nblocks * 4096 := by
  rw [serves.recorded, counted, fileBytes_of_lt bounded]

/-- A file closed between transactions keeps its books when it is opened again. -/
theorem Session.Keeps.reopened (keeps : s.Keeps others (.closed books)) (succeeds : os.Succeeds)
    (grants : again.Grants (s.leaves s.client.held) false) :
    ∃ db, edbOpen again false false ⟨s.db.data, closedEdb os⟩ = .ok () db ∧ db.data = s.db.data ∧
      db.ctl.nblocks = s.db.ctl.nblocks ∧
      (Session.start db s.client.held).Keeps others (.closed books) ∧
      (Session.start db s.client.held).client = s.client := by
  cases keeps with
  | closed settled sound client content =>
  have user := sound.user
  obtain ⟨db, opened, data, serves, nblocks, freelist, objlist, txn, _⟩ :=
    edbOpen_whole grants succeeds
    (settled.serves.size settled.nblocks sound.bounded) (by omega) sound.bounded
  have same : (Session.start db s.client.held).client = s.client := client
  refine ⟨db, opened, data, nblocks.trans settled.nblocks.symm, ?_, same⟩
  refine .closed ⟨serves, nblocks, freelist, objlist, txn, ?_, ?_⟩ sound rfl fun _ _ => rfl
  · change Stack (db.data 1) books.free
    rw [data]
    exact settled.free
  · change Stack (db.data 3) books.objects
    rw [data]
    exact settled.objects

/-- The blocks that the file has grown by belong to nobody once the books of begin hold again. -/
def grownBy (base : Books) (nblocks : Nat) : List Nat :=
  List.range' base.nblocks (nblocks - base.nblocks)

theorem mem_grownBy {nblocks block : Nat} : block ∈ grownBy base nblocks ↔
    base.nblocks ≤ block ∧ block < nblocks := by
  rw [grownBy, List.mem_range'_1]
  omega

/-- The books of begin, in a file that has grown. -/
theorem Books.Sound.grown (sound : base.Sound others held) {nblocks : Nat}
    (more : base.nblocks ≤ nblocks) (bounded : nblocks < 1048576) :
    Books.Sound (others ++ grownBy base nblocks) held ⟨nblocks, base.free, base.objects⟩ := by
  refine ⟨Nat.le_trans sound.user more, bounded, fun block => ?_⟩
  have user := sound.user
  have counted := sound.partition block
  simp only [List.count_append, grownBy, List.count_range_1', edbUserData] at counted ⊢
  split at counted <;> split <;> split <;> omega

/-- A block outside the freelist is one in use at begin. -/
theorem Books.Sound.liveAtBegin (sound : base.Sound others held) {c : Client}
    (saved : c.saved = held) {block : Nat}
    (inUse : block = edbFreelistPrimary ∨ block = edbObjlist ∨
      edbUserData ≤ block ∧ block < base.nblocks ∧ block ∉ base.free) :
        LiveAtBegin others base c block := by
  rcases inUse with same | same | ⟨user, inside, notFree⟩
  · exact .inl same
  · exact .inr (.inl same)
  · refine .inr (.inr ?_)
    have counted := sound.partition block
    rw [if_pos ⟨user, inside⟩] at counted
    have member := List.one_le_count_iff.mp (Nat.le_of_eq counted.symm)
    simp only [List.mem_append, notFree, false_or] at member
    rw [saved]
    simpa only [List.mem_append] using member

/-- A file whose program was killed inside a transaction keeps the books of begin. -/
theorem Session.Keeps.recovered (keeps : s.Keeps others (.opened base l)) (succeeds : os.Succeeds)
    (grants : again.Grants (s.leaves s.client.saved) false) :
    ∃ db, edbOpen again false false ⟨s.db.data, closedEdb os⟩ = .ok () db ∧ db.data = s.db.data ∧
      (Session.start db s.client.saved).Keeps (others ++ grownBy base s.db.ctl.nblocks)
        (.closed ⟨s.db.ctl.nblocks, base.free, base.objects⟩) := by
  cases keeps with
  | opened tracks sound content saved =>
  have user := sound.begun.user
  have grown := sound.grown
  obtain ⟨db, opened, data, serves, nblocks, freelist, objlist, txn, _⟩ :=
    edbOpen_whole grants succeeds
    (tracks.serves.size tracks.nblocks sound.bounded) (by omega) sound.bounded
  rw [tracks.nblocks]
  refine ⟨db, opened, data, ?_⟩
  refine .closed ⟨serves, nblocks, freelist, objlist, txn, ?_, ?_⟩
    (sound.begun.grown grown sound.bounded) rfl
    fun _ _ => rfl
  · change Stack (db.data 1) base.free
    rw [data]
    exact tracks.baseFree
  · change Stack (db.data 3) base.objects
    rw [data]
    exact tracks.baseObjects

/-- What a transaction leaves whose program was killed. -/
structure Recovered (depth : Nat) (first killed : Session) (next : EdbDb) : Prop where
  freelist : arrayWords next edbFreelistPrimary = first.freelist
  objects : arrayWords next edbObjlist = first.objects
  bytes : ∀ block, block = edbFreelistPrimary ∨ block = edbObjlist ∨
    edbUserData ≤ block ∧ block < first.db.ctl.nblocks ∧ block ∉ first.freelist →
    next.data block = first.db.data block
  /-- Later runs do what they promise, and never come by a block that the file had grown by. -/
  later : ∀ {ops answers last}, Run depth (Session.start next first.client.held) ops answers last →
    last.Promises depth ∧ ∀ block, first.db.ctl.nblocks ≤ block → block < killed.db.ctl.nblocks →
      block ∉ last.freelist ++ (last.client.held ++ last.objects ++ last.workingCopy) ++
        last.client.retired
  /-- Where the file has not grown, they answer as if the transaction had never begun. -/
  unharmed : killed.db.ctl.nblocks = first.db.ctl.nblocks → ∀ ops answers,
    (∃ after, Run depth (Session.start next first.client.held) ops answers after) ↔
    ∃ after, Run depth first ops answers after

/-- A program killed between two calls of a transaction loses that transaction and the
blocks by which the file has grown, and nothing else. -/
theorem killed_recovers (between : Between db held) (inner : ∀ op ∈ ops, op.Inner)
    (run : Run (depth + 2) (Session.start db held) (.begin :: ops) answers killed)
    (succeeds : os.Succeeds) (grants : again.Grants (killed.leaves held) false) :
    ∃ next, edbOpen again false false ⟨killed.db.data, closedEdb os⟩ = .ok () next ∧
      Recovered (depth + 2) (Session.start db held) killed next := by
  have start := between.keeps
  obtain ⟨startFree, startObjects, _, startBlocks, _⟩ := start.closed_lists
  cases run with
  | call disciplined inside ran rest =>
  obtain ⟨entered, stepped, begun⟩ := start.begin_step (depth + 2)
  have client := Session.step_client ran
  rw [ran, Option.some.injEq, Prod.mk.injEq] at stepped
  obtain ⟨rfl, rfl⟩ := stepped
  obtain ⟨ledger, keeps, sameClient, sameBytes⟩ := rest.inner_keeps begun inner
  have saved : killed.client.saved = held := by
    rw [sameClient, client]
    rfl
  have bytes : killed.saved = db.data := by
    rw [sameBytes]
    rcases Session.step_saved ran with same | ⟨_, same⟩ <;> exact same
  obtain ⟨next, opened, data, kept⟩ := keeps.recovered succeeds (saved ▸ grants)
  rw [saved] at kept
  obtain ⟨free, objects, _⟩ := kept.closed_lists
  have freelist : (Session.start next held).freelist = arrayWords next edbFreelistPrimary := by
    cases kept with
    | closed settled _ _ _ => exact congrArg (arrayWords next) settled.freelist
  have objlist : (Session.start next held).objects = arrayWords next edbObjlist := by
    cases kept with
    | closed settled _ _ _ => exact congrArg (arrayWords next) settled.objlist
  refine ⟨next, opened, ⟨?_, ?_, ?_, ?_, ?_⟩⟩
  · exact freelist.symm.trans (free.trans startFree.symm)
  · exact objlist.symm.trans (objects.trans startObjects.symm)
  · intro block inUse
    rw [startFree] at inUse
    have live : LiveAtBegin (otherBlocks db held)
        ⟨db.ctl.nblocks, arrayWords db 1, arrayWords db 3⟩ killed.client block := by
      cases start with
      | closed _ sound _ _ => exact sound.liveAtBegin saved inUse
    cases keeps with
    | opened tracks sound content before =>
        rw [data, before block live, bytes]
        rfl
  · intro ops answers last run
    obtain ⟨_, _, final⟩ := run.keeps kept
    refine ⟨final.promises depth, fun block low high => final.others_apart ?_⟩
    exact List.mem_append_right _ (mem_grownBy.mpr ⟨low, high⟩)
  · intro same later answers
    rw [show killed.db.ctl.nblocks = db.ctl.nblocks from same] at kept
    have nothing : grownBy ⟨db.ctl.nblocks, arrayWords db 1, arrayWords db 3⟩ db.ctl.nblocks =
        [] := by simp [grownBy]
    rw [nothing, List.append_nil] at kept
    exact kept.alike start rfl depth

/-- A program that is killed after it has taken a block. -/
theorem killed_recovers_allocated : ∃ db killed next answers,
    Run 2 (Session.start db []) [.begin, .allocate] answers killed ∧
      edbOpen ⟨0, 0, killed.db.ctl.filesize⟩ false false ⟨killed.db.data, closedEdb grantingOs⟩ =
        .ok () next ∧
      Recovered 2 (Session.start db []) killed next := by
  obtain ⟨db, initialised, _⟩ := edbOpenNew_run grantingOs_succeeds
  have start := newSession_keeps grantingOs_succeeds initialised
  have allowed : (Bank.closed ⟨4, [], []⟩).Allows ⟨[], [], [], []⟩ [.begin, .allocate] := by
    decide +kernel
  obtain ⟨killed, run⟩ := start.run 0 allowed
  have inner : ∀ op ∈ [Op.allocate], op.Inner := by simp [Op.Inner]
  obtain ⟨next, rest⟩ := killed_recovers start.between.1 inner run grantingOs_succeeds
    (show FileAnswer.Grants ⟨0, 0, killed.db.ctl.filesize⟩ _ false from ⟨Int.le_refl 0,
      Int.le_refl 0, rfl⟩)
  exact ⟨db, killed, next, _, run, rest⟩

end EverDb
