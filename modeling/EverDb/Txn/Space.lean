import EverDb.Txn.Conversion
import EverDb.Txn.History

/-!
# How large the file gets

The file grows in four steps to each doubling, and only when every block is in use. So
its size is one of a fixed list at any time, and never more than a quarter above the most
blocks that were in use at once.
-/

namespace EverDb

open Foundation

variable {os : Os} {db : EdbDb} {others : List Nat} {s last : Session} {bank : Bank}
  {base books : Books}
  {l : Ledger} {c : Client} {depth i n peak : Nat} {op : Op} {ops : List Op}
  {answers : List (Except Int Nat)}

/-! ## The sizes of the file -/

/-- The sizes that the file goes through, from the four blocks of a new one. -/
def fileSize (i : Nat) : Nat := (4 + i % 4) * 2 ^ (i / 4)

/-- A step of growth adds one block for the first four steps, then twice as many for each
next four. -/
theorem fileSize_succ (i : Nat) : fileSize (i + 1) = fileSize i + 2 ^ (i / 4) := by
  have positive := Nat.two_pow_pos (i / 4)
  unfold fileSize
  by_cases full : i % 4 = 3
  · rw [show (i + 1) % 4 = 0 by omega, show (i + 1) / 4 = i / 4 + 1 by omega, full, Nat.pow_succ]
    omega
  · rw [show (i + 1) % 4 = i % 4 + 1 by omega, show (i + 1) / 4 = i / 4 by omega,
      ← Nat.add_assoc, Nat.succ_mul]

/-- Each step makes the file larger. -/
theorem fileSize_lt_succ (i : Nat) : fileSize i < fileSize (i + 1) := by
  rw [fileSize_succ]
  exact Nat.lt_add_of_pos_right (Nat.two_pow_pos _)

/-- The sizes ascend. -/
theorem fileSize_mono : StrictMono fileSize := strictMono_nat_of_lt_succ fileSize_lt_succ

/-- A step is an eighth to a quarter of the size. -/
theorem four_fileSize_le (i : Nat) :
    4 * 2 ^ (i / 4) ≤ fileSize i ∧ fileSize i < 8 * 2 ^ (i / 4) := by
  unfold fileSize
  have positive := Nat.two_pow_pos (i / 4)
  constructor
  · exact Nat.mul_le_mul_right _ (by omega)
  · exact Nat.mul_lt_mul_of_pos_right (by omega) positive

/-- An eighth of a size lies below the step, and above half of it. -/
theorem eighth_fileSize (i : Nat) :
    fileSize i / 8 < 2 ^ (i / 4) ∧ 2 ^ (i / 4) ≤ 2 * (fileSize i / 8) + 1 := by
  obtain ⟨least, most⟩ := four_fileSize_le i
  constructor
  · omega
  · obtain small | ⟨q, large⟩ : i / 4 = 0 ∨ ∃ q, i / 4 = q + 1 := by
      cases i / 4 with
      | zero => exact .inl rfl
      | succ q => exact .inr ⟨q, rfl⟩
    · rw [small]
      omega
    · rw [large, Nat.pow_succ] at least ⊢
      omega

/-- Growing takes the file from one size to the next. -/
theorem grownBlocks_fileSize (small : fileSize i < 1048576) :
    grownBlocks (fileSize i) = fileSize (i + 1) := by
  obtain ⟨below, above⟩ := eighth_fileSize i
  obtain ⟨least, _⟩ := four_fileSize_le i
  have eighth : fileSize i >>> 3 = fileSize i / 8 := Nat.shiftRight_eq_div_pow _ 3
  obtain ⟨k, inside, step, half, exceeds⟩ :=
    nextPowerOfTwo_eq (show fileSize i >>> 3 < 2147483648 by omega)
  rw [eighth] at half exceeds
  have same : k = i / 4 := by
    refine Nat.le_antisymm (Bits.least_two_pow half below) (Bits.least_two_pow above exceeds)
  subst same
  rw [grownBlocks_eq step inside (by omega), u32_of_lt (by omega), ← fileSize_succ]
  refine Nat.div_mul_cancel ?_
  rw [fileSize_succ]
  exact Nat.dvd_add (Nat.dvd_mul_left _ _) (Nat.dvd_refl _)

/-- The first forty sizes are those below 4096. -/
theorem fileSize_lt_iff : fileSize i < 4096 ↔ i < 40 := by
  rw [show (4096 : Nat) = fileSize 40 by decide]
  exact fileSize_mono.lt_iff_lt

/-- The blocks of one step fit in the root of the freelist up to 4096 blocks. -/
theorem growthFits_fileSize (small : fileSize i < 1048576) : growthFits (fileSize i) ↔
    fileSize i < 4096 := by
  rw [growthFits, grownBlocks_fileSize small, fileSize_succ, fileSize_lt_iff]
  constructor
  · rintro ⟨fits, _⟩
    by_contra late
    have steps : 2 ^ 10 ≤ 2 ^ (i / 4) := Nat.pow_le_pow_right (by decide) (by omega)
    omega
  · intro early
    have steps : 2 ^ (i / 4) ≤ 2 ^ 9 := Nat.pow_le_pow_right (by decide) (by omega)
    have size := fileSize_lt_iff.mpr early
    omega

/-! ## What a call takes -/

/-- One block is taken: `nblocks` and the length of the freelist before and after. -/
inductive Takes : Nat → Nat → Nat → Nat → Prop
  | pop {nblocks length : Nat} : Takes nblocks (length + 1) nblocks length
  | grow {nblocks : Nat} (fits : growthFits nblocks) :
      Takes nblocks 0 (grownBlocks nblocks) (grownBlocks nblocks - (nblocks + 1))

namespace Takes

variable {length nblocks' length' : Nat}

/-- A growth stays below the number of blocks where addresses wrap. -/
theorem bounded (takes : Takes n length nblocks' length') (small : n < 1048576) :
    nblocks' < 1048576 := by
  cases takes with
  | pop => exact small
  | grow fits => exact fits.2

/-- From one of the sizes the file grows to the next one, if at all. -/
theorem sized (takes : Takes n length nblocks' length') (small : n < 1048576)
    (sized : ∃ i ≤ 40, n = fileSize i) :
    ∃ i ≤ 40, nblocks' = fileSize i := by
  cases takes with
  | pop => exact sized
  | grow fits =>
      obtain ⟨i, _, rfl⟩ := sized
      have early := fileSize_lt_iff.mp ((growthFits_fileSize small).mp fits)
      exact ⟨i + 1, early, grownBlocks_fileSize small⟩

/-- More blocks are in use afterwards. -/
theorem used (takes : Takes n length nblocks' length') (small : n < 1048576) :
    n - length ≤ nblocks' - length' := by
  cases takes with
  | pop => omega
  | grow fits =>
      have grows := lt_grownBlocks small
      omega

/-- The file grows when every block is in use, by a quarter at most. -/
theorem within (takes : Takes n length nblocks' length') (small : n < 1048576)
    (sized : ∃ i ≤ 40, n = fileSize i)
    (within : 4 * n ≤ 5 * peak) (peaks : nblocks' - length' ≤ peak) : 4 * nblocks' ≤ 5 * peak := by
  cases takes with
  | pop => exact within
  | grow fits =>
      have grows := lt_grownBlocks small
      obtain ⟨i, _, rfl⟩ := sized
      obtain ⟨least, _⟩ := four_fileSize_le i
      rw [grownBlocks_fileSize small, fileSize_succ] at grows peaks ⊢
      omega

end Takes

/-- The ledger gives out a block in such a step. -/
theorem Ledger.take_takes (fits : takesFit 1 l.free.length l.nblocks) :
    Takes l.nblocks l.free.length l.take.2.nblocks l.take.2.free.length := by
  rcases List.eq_nil_or_concat' l.free with none | ⟨rest, last, split⟩
  · have taken : l.take = (l.nblocks, { l with
        nblocks := grownBlocks l.nblocks
        free := List.range' (l.nblocks + 1) (grownBlocks l.nblocks - (l.nblocks + 1)) }) := by
      simp [take, none]
    rw [none] at fits
    rw [taken, none]
    simp only [List.length_nil, List.length_range']
    exact .grow fits.1
  · have taken : l.take = (last, { l with free := rest }) := by simp [take, split]
    rw [taken, split, List.length_append]
    exact .pop

/-- What a call does to the number of blocks: nothing, or it takes one or two. -/
inductive Ledger.Spends (l after : Ledger) : Prop
  | none (same : after.nblocks = l.nblocks)
  | once (takes : Takes l.nblocks l.free.length after.nblocks after.free.length)
  | twice {n length : Nat} (first : Takes l.nblocks l.free.length n length)
      (second : Takes n length after.nblocks after.free.length)

/-- Every call inside a transaction. -/
theorem Ledger.spends (inner : op.Inner) (fits : (Bank.opened base l).Fits c op) :
    ∃ after, (Bank.opened base l).next op = .opened base after ∧ l.Spends after := by
  cases op with
  | begin => exact absurd inner (by simp [Op.Inner])
  | commit => exact absurd inner (by simp [Op.Inner])
  | abort => exact absurd inner (by simp [Op.Inner])
  | allocate => exact ⟨_, rfl, .once (take_takes fits)⟩
  | write block image => exact ⟨_, rfl, .none rfl⟩
  | modify block =>
      refine ⟨_, rfl, ?_⟩
      unfold modify
      by_cases fresh : l.table.get block = 0
      · rw [if_pos fresh]
        exact .once (take_takes (fits fresh))
      · rw [if_neg fresh]
        exact .none rfl
  | free block =>
      refine ⟨_, rfl, .none ?_⟩
      unfold freeBlock
      split
      · rfl
      · split <;> rfl
  | create itemSize =>
      obtain ⟨room, _⟩ := fits
      refine ⟨_, rfl, ?_⟩
      by_cases fresh : l.table.get l.objlist = 0
      · rw [if_pos fresh] at room
        obtain ⟨one, two⟩ := takesFit_take room
        have opened :
            l.openObjlist = { l.take.2.set l.take.1 l.objlist with objlist := l.take.1 } := by
          simp [openObjlist, modify, fresh]
        refine .twice (n := l.openObjlist.nblocks) (by rw [opened]; exact take_takes one)
          (take_takes (l := l.openObjlist) (by rw [opened]; exact two))
      · rw [if_neg fresh] at room
        have opened : l.openObjlist = l := by simp [openObjlist, modify, fresh]
        refine .once ?_
        change Takes _ _ l.openObjlist.take.2.nblocks l.openObjlist.take.2.free.length
        rw [opened]
        exact take_takes room

/-! ## Runs -/

/-- The books have sizes that the file goes through up to 4096 blocks. -/
def Bank.Sized : Bank → Prop
  | closed books => ∃ i ≤ 40, books.nblocks = fileSize i
  | opened base l => (∃ i ≤ 40, base.nblocks = fileSize i) ∧ ∃ i ≤ 40, l.nblocks = fileSize i

/-- The books have a quarter more than `peak` blocks at most. -/
def Bank.Within (peak : Nat) : Bank → Prop
  | closed books => 4 * books.nblocks ≤ 5 * peak
  | opened base l => 4 * base.nblocks ≤ 5 * peak ∧ 4 * l.nblocks ≤ 5 * peak

/-- The blocks that are not free. -/
def Bank.used : Bank → Nat
  | closed books => books.nblocks - books.free.length
  | opened _ l => l.nblocks - l.free.length

/-- Outside the calls inside a transaction the file does not grow. -/
theorem Bank.next_outer (outer : ¬(op.Inner ∧ ∃ base l, bank = .opened base l))
    (sized : bank.Sized) :
    (bank.next op).Sized ∧ (bank.Within peak → (bank.next op).Within peak) := by
  cases bank with
  | closed books =>
      cases op with
      | begin => exact ⟨⟨sized, sized⟩, fun within => ⟨within, within⟩⟩
      | _ => exact ⟨sized, id⟩
  | opened base l =>
      cases op with
      | begin => exact ⟨sized, id⟩
      | commit => exact ⟨sized.2, And.right⟩
      | abort => exact ⟨sized.1, And.left⟩
      | _ => exact absurd ⟨trivial, base, l, rfl⟩ outer

/-- One call. -/
theorem Session.Keeps.space_step (keeps : s.Keeps others bank) (fits : bank.Fits s.client op)
    (sized : bank.Sized) (peak : Nat) :
    (bank.next op).Sized ∧
      (bank.Within peak → (bank.next op).used ≤ peak → (bank.next op).Within peak) := by
  by_cases inside : op.Inner ∧ ∃ base l, bank = .opened base l
  · obtain ⟨inner, base, l, rfl⟩ := inside
    obtain ⟨after, next, spends⟩ := Ledger.spends inner fits
    have small : l.nblocks < 1048576 := by
      cases keeps with
      | opened tracks sound content saved => exact sound.bounded
    rw [next]
    cases spends with
    | none same => exact ⟨⟨sized.1, same ▸ sized.2⟩, fun within _ => ⟨within.1, same ▸ within.2⟩⟩
    | once takes =>
        exact ⟨⟨sized.1, takes.sized small sized.2⟩,
          fun within peaks => ⟨within.1, takes.within small sized.2 within.2 peaks⟩⟩
    | twice first second =>
        have later := first.bounded small
        have between := first.sized small sized.2
        refine ⟨⟨sized.1, second.sized later between⟩, fun within peaks => ⟨within.1, ?_⟩⟩
        have earlier := Nat.le_trans (second.used later) peaks
        exact second.within later between (first.within small sized.2 within.2 earlier) peaks
  · obtain ⟨sizes, bounds⟩ := Bank.next_outer inside sized
    exact ⟨sizes, fun within _ => bounds within⟩

/-- The blocks in use: the four of the database, those of the client and of the objects,
and those that the open transaction keeps for an abort. -/
def Session.inUse (s : Session) : Nat :=
  4 + (s.client.held ++ s.objects ++ s.workingCopy ++ s.client.retired).length

/-- The blocks in use are those of the abstract machine. -/
theorem Session.Keeps.inUse_eq (keeps : s.Keeps [] bank) : s.inUse = bank.used := by
  have total := keeps.shares.length
  have counted : s.freelist.length + s.inUse = s.db.ctl.nblocks ∧
      bank.used = s.db.ctl.nblocks - s.freelist.length := by
    simp only [List.length_append, List.length_nil] at total
    unfold inUse
    simp only [List.length_append]
    cases bank with
    | closed books =>
        obtain ⟨free, _, _, nblocks, _⟩ := keeps.closed_lists
        cases keeps with
        | closed settled sound client content =>
        have user := sound.user
        rw [free] at total ⊢
        rw [nblocks] at total ⊢
        exact ⟨by omega, rfl⟩
    | opened base l =>
        obtain ⟨free, _, _, nblocks⟩ := keeps.opened_lists
        cases keeps with
        | opened tracks sound content saved =>
        have user := sound.begun.user
        have grown := sound.grown
        rw [free] at total ⊢
        rw [nblocks] at total ⊢
        exact ⟨by omega, rfl⟩
  omega

/-- The freelist lies in its root, with all its entries. -/
def Db.FreelistInRoot (db : EdbDb) : Prop := ∃ words, Stack (db.data db.ctl.freelist) words

/-- What the sizes say about a session. -/
structure Session.Roomy (depth : Nat) (s : Session) : Prop where
  size : ∃ i ≤ 40, s.db.ctl.nblocks = fileSize i
  /-- In a transaction `edb_allocate_block` leaves the freelist in its root while a block is
  free or the file has fewer than 4096, and only then. -/
  allocates : s.db.ctl.txn ≠ [] →
    ((∃ block after, edbAllocateBlock depth s.db = .ok block after ∧ after.FreelistInRoot) ↔
      s.freelist ≠ [] ∨ s.db.ctl.nblocks < 4096)

/-- A state that keeps to a sized bank is roomy. -/
theorem Session.Keeps.roomy (keeps : s.Keeps others bank) (sized : bank.Sized) (depth : Nat) :
    s.Roomy (depth + 2) := by
  cases bank with
  | closed books =>
      obtain ⟨_, _, _, nblocks, _⟩ := keeps.closed_lists
      refine ⟨nblocks ▸ sized, fun open_ => ?_⟩
      cases keeps with
      | closed settled sound client content => exact absurd settled.txn open_
  | opened base l =>
      obtain ⟨free, _, _, nblocks⟩ := keeps.opened_lists
      refine ⟨nblocks ▸ sized.2, fun _ => ?_⟩
      cases keeps with
      | opened tracks sound content saved =>
      have small := sound.bounded
      obtain ⟨i, last, size⟩ := sized.2
      rw [free, nblocks]
      constructor
      · rintro ⟨block, after, ran, words, stack⟩
        by_contra full
        obtain ⟨none, large⟩ := not_or.mp full
        -- the largest of the sizes
        have peak : l.nblocks = 4096 := by
          have late : ¬i < 40 := fun early => large (size ▸ fileSize_lt_iff.mpr early)
          rw [size, show i = 40 by omega]
          rfl
        have paged := tracks.allocate_overflows sound (not_not.mp none) peak depth ran
        have inRoot : ptNblocks after after.ctl.freelist = 0 := stack.array.count
        omega
      · intro room
        have fits : takesFit 1 l.free.length l.nblocks := by
          cases shape : l.free with
          | nil =>
              have below := room.resolve_left (fun some => some shape)
              rw [size] at small below ⊢
              exact ⟨(growthFits_fileSize small).mpr below, trivial⟩
          | cons block rest => trivial
        obtain ⟨after, ran, tracked, _⟩ := tracks.allocate_run sound.working depth fits
        refine ⟨_, after, ran, l.allocate.2.free, ?_⟩
        rw [tracked.freelist]
        exact tracked.free

/-- The file has one of the sizes along every run. -/
theorem Run.sized (run : Run (depth + 2) s ops answers last) (keeps : s.Keeps others bank)
    (sized : bank.Sized) :
    (ops.foldl Bank.next bank).Sized := by
  induction run generalizing bank with
  | done => exact sized
  | call disciplined inside ran _ ih =>
      have fits := (Session.inline_iff keeps _).mp inside
      obtain ⟨next, stepped, kept⟩ := keeps.step depth _ disciplined fits
      rw [ran, Option.some.injEq, Prod.mk.injEq] at stepped
      obtain ⟨rfl, rfl⟩ := stepped
      exact ih kept (keeps.space_step fits sized 0).1

/-- In every run from a new database the file has one of the sizes up to 4096 blocks, and
the next allocation leaves the freelist in its root unless all 4096 are in use. -/
theorem file_sizes (succeeds : os.Succeeds) (opened : edbOpenNew (newFile os) = .ok () db)
    (run : Run (depth + 2) (Session.start db []) ops answers last) : last.Roomy (depth + 2) := by
  have keeps := newSession_keeps succeeds opened
  exact (run.keeps keeps).2.2.roomy (run.sized keeps ⟨0, by decide, rfl⟩) depth

/-- A transaction that takes a block. -/
theorem file_sizes_allocated : ∃ db answers last, edbOpenNew (newFile grantingOs) = .ok () db ∧
    Run 2 (Session.start db []) [.begin, .allocate] answers last ∧ last.Roomy 2 := by
  obtain ⟨db, opened, _⟩ := edbOpenNew_run grantingOs_succeeds
  have allowed : (Bank.closed ⟨4, [], []⟩).Allows ⟨[], [], [], []⟩ [.begin, .allocate] := by
    decide +kernel
  obtain ⟨last, run⟩ := (newSession_keeps grantingOs_succeeds opened).run 0 allowed
  exact ⟨db, _, last, opened, run, file_sizes grantingOs_succeeds opened run⟩

/-- Each state of a run has at most `peak` blocks in use. -/
def Peaks (depth : Nat) (s : Session) (ops : List Op) (peak : Nat) : Prop :=
  ∀ front back answers mid, ops = front ++ back → Run depth s front answers mid → mid.inUse ≤ peak

/-- The file stays within a quarter above the peak along every run. -/
theorem Run.within (run : Run (depth + 2) s ops answers last) (keeps : s.Keeps [] bank)
    (sized : bank.Sized) (within : bank.Within peak) (peaks : Peaks (depth + 2) s ops peak) :
    (ops.foldl Bank.next bank).Within peak := by
  induction run generalizing bank with
  | done => exact within
  | @call s next last op ops answer answers disciplined inside ran _ ih =>
      have fits := (Session.inline_iff keeps op).mp inside
      obtain ⟨after, stepped, kept⟩ := keeps.step depth op disciplined fits
      rw [ran, Option.some.injEq, Prod.mk.injEq] at stepped
      obtain ⟨rfl, rfl⟩ := stepped
      obtain ⟨sizes, bounds⟩ := keeps.space_step fits sized peak
      have reached : next.inUse ≤ peak :=
        peaks [op] ops _ next rfl (.call disciplined inside ran .done)
      rw [kept.inUse_eq] at reached
      refine ih kept sizes (bounds within reached) fun front back given mid split first => ?_
      exact peaks (op :: front) back _ mid (congrArg (op :: ·) split)
        (.call disciplined inside ran first)

/-- In every run from a new database the file is at most a quarter larger than the most
blocks that are in use at once. -/
theorem file_within_peak (succeeds : os.Succeeds) (opened : edbOpenNew (newFile os) = .ok () db)
    (run : Run (depth + 2) (Session.start db []) ops answers last)
    (peaks : Peaks (depth + 2) (Session.start db []) ops peak) :
    4 * last.db.ctl.nblocks ≤ 5 * peak := by
  have keeps := newSession_keeps succeeds opened
  have first : (Session.start db []).inUse ≤ peak := peaks [] ops [] _ rfl .done
  rw [keeps.inUse_eq] at first
  have start : (Bank.closed ⟨4, [], []⟩).Within peak := by
    change 4 - 0 ≤ peak at first
    change 4 * 4 ≤ 5 * peak
    omega
  have final := (run.keeps keeps).2.2
  have within := run.within keeps ⟨0, by decide, rfl⟩ start peaks
  generalize ops.foldl Bank.next (.closed ⟨4, [], []⟩) = bank at final within
  cases bank with
  | closed books => exact final.closed_lists.2.2.2.1 ▸ within
  | opened base l => exact final.opened_lists.2.2.2 ▸ within.2

/-- The peak of a run can be read off its books. -/
theorem Peaks.of_books (keeps : s.Keeps [] bank)
    (used : ∀ n ≤ ops.length, ((ops.take n).foldl Bank.next bank).used ≤ peak) :
    Peaks (depth + 2) s ops peak := by
  rintro front back answers mid rfl run
  rw [(run.keeps keeps).2.2.inUse_eq]
  have bounded := used front.length (by simp)
  rwa [List.take_left] at bounded

/-- A block, an object and a copy of the object list are in use beside the four of the
database. -/
theorem file_within_peak_created : ∃ db answers last, edbOpenNew (newFile grantingOs) = .ok () db ∧
    Run 2 (Session.start db []) [.begin, .allocate, .create 4] answers last ∧
    4 * last.db.ctl.nblocks ≤ 5 * 7 := by
  obtain ⟨db, opened, _⟩ := edbOpenNew_run grantingOs_succeeds
  have keeps := newSession_keeps grantingOs_succeeds opened
  have allowed : (Bank.closed ⟨4, [], []⟩).Allows ⟨[], [], [], []⟩ [.begin, .allocate,
      .create 4] := by decide +kernel
  obtain ⟨last, run⟩ := keeps.run 0 allowed
  exact ⟨db, _, last, opened, run, file_within_peak grantingOs_succeeds opened run
    (.of_books keeps (by decide +kernel))⟩

end EverDb
