import EverDb.Array.Live
import EverDb.Array.Refine
import EverDb.Edb.Recovery
import EverDb.Txn.Lent

/-!
# An array in a file

An array that is made in a transaction and committed is in the file: closed and opened
again, the file gives back the elements that the calls on the array left in it, and it
still has every block that it had before.
-/

namespace EverDb

open Foundation

variable {db after : EdbDb} {held others : List Nat} {own : Ownership} {base : Books}
  {first s : Session} {l : Ledger}
  {depth size limit root count length nblocks : Nat} {elems : List (List UInt8)}

/-! ## Reading it -/

/-- A file of at most 2048 blocks grows by at most a quarter and one block. -/
theorem growthFits_small (small : nblocks ≤ 2048) : growthFits nblocks ∧
    grownBlocks nblocks ≤ nblocks + nblocks / 4 + 1 := by
  have eighth : nblocks >>> 3 = nblocks / 8 := Nat.shiftRight_eq_div_pow _ 3
  obtain ⟨k, inside, step, half, _⟩ := nextPowerOfTwo_eq (show nblocks >>> 3 < 2147483648 by omega)
  rw [eighth] at half
  have grown : grownBlocks nblocks ≤ nblocks + 2 ^ k := by
    rw [grownBlocks_eq step inside (by omega), u32_of_lt (by omega)]
    exact Nat.div_mul_le_self _ _
  exact ⟨⟨by omega, by omega⟩, by omega⟩

/-- Three blocks can be had in a file of at most 1024. -/
theorem takesFit_small (small : nblocks + 512 * count ≤ 2560) : takesFit count length nblocks := by
  induction count generalizing length nblocks with
  | zero => trivial
  | succ count ih =>
      cases length with
      | succ length => exact ih (by omega)
      | zero =>
          obtain ⟨fits, most⟩ := growthFits_small (show nblocks ≤ 2048 by omega)
          refine ⟨fits, ?_⟩
          by_cases last : count = 0
          · rw [last]
            trivial
          · exact ih (by omega)

/-- Begin a transaction and read an element. -/
def readArray (depth root i : Nat) : Code EdbDb (List UInt8) := do
  edbTxnBegin depth
  arrayGet (edbApi depth) root i

/-- What `array_get` says of a list. -/
def elementAt (elems : List (List UInt8)) (i : Nat) (db : EdbDb) : Outcome EdbDb (List UInt8) :=
  match elems[i]? with
  | some element => .ok element db
  | none => .error errArrayIndexOutOfBounds db

/-- An array whose blocks the client holds is there in its next transaction. -/
theorem LiveArray.of_rep {api : BlockApi EdbDb} {contract : BlockContract api}
    (array : ArrayRep contract limit own db root size elems)
    (used : ∀ block, own.kept block → l.Used block)
    (same : ∀ block, own.kept block → after.data block = db.data block) :
    LiveArray after l root size elems := by
  have kept : ∀ {own : Ownership} {db : EdbDb}, contract.Valid own db →
      ∀ block, own.writable block → own.kept block :=
    fun valid block writable =>
      (contract.wf valid).usable_kept _
        ((contract.wf valid).live_usable _ ((contract.wf valid).writable_live _ writable))
  cases array with
  | small array room =>
      have mine := kept array.valid root array.writable
      have here := same root mine
      exact .small (used root mine) (by rw [ptNblocks, here]; exact array.count)
        ⟨by rw [here]; exact array.header.itemSize, by rw [here]; exact array.header.length⟩
          array.fits
        (by rw [here]; exact array.elements)
  | paged blocks indexes array within room =>
      have valid := array.held.valid
      have mine : ∀ block ∈ root :: (blocks ++ indexes), own.kept block := fun block member => by
        rcases List.mem_cons.mp member with rfl | inside
        · exact kept valid block array.held.writable
        · exact kept valid block (array.writable block inside)
      have here := same root (mine root (by simp))
      have sameIndexes : ∀ index ∈ indexes, after.data index = db.data index := fun index member =>
        same index (mine index (by simp [member]))
      refine .paged blocks indexes (fun block member => used block (mine block member))
        (array.held.table.congr here sameIndexes) array.nonempty ⟨?_, ?_⟩ array.fits ?_
      · rw [here]
        exact array.header.itemSize
      · rw [here]
        exact array.header.length
      · intro i element block found place
        rw [same block (mine block (by simp [List.mem_of_getElem? place]))]
        exact array.elements i element block found place

theorem Ledger.Sound.used {c : Client} {block : Nat} (sound : l.Sound others base c)
    (held : block ∈ c.held) :
    l.Used block := by
  have range := sound.range block (by simp [held])
  have bounded := sound.bounded
  refine ⟨range.1, range.2, fun free => ?_, fun state => ?_⟩
  · have once := List.nodup_iff_count_le_one.mp sound.partition.nodup block
    have one := List.one_le_count_iff.mpr free
    have two := List.one_le_count_iff.mpr held
    simp only [List.count_append] at once
    omega
  · have states := sound.held_state held
    rw [state] at states
    simp only [freed, allocated] at states
    omega

/-- An array of the client is read in the next transaction. -/
theorem Session.Keeps.readArray_run {api : BlockApi EdbDb}
    {contract : BlockContract api} {books : Books}
    (keeps : s.Keeps others (.closed books))
    (array : ArrayRep contract limit own db root size elems)
    (mine : ∀ block, own.kept block → block ∈ s.client.held ∧ s.db.data block = db.data block)
    (small : books.nblocks ≤ 1024) (depth i : Nat) :
    ∃ last, readArray (depth + 2) root i s.db = elementAt elems i last := by
  obtain ⟨entered, ran, opened⟩ := keeps.begin_step (depth + 2)
  have client : entered.client = s.client.begun := Session.step_client ran
  have content : entered.content = s.content := by rw [Session.step_after ran]; rfl
  obtain ⟨_, _, begun, rest⟩ := Code.of_bind_ok (Session.step_call ran)
  cases rest
  have held : ∀ block, own.kept block → block ∈ entered.client.held := fun block kept => by
    rw [client]
    exact (mine block kept).1
  have before : ∀ block ∈ s.client.held, s.db.data block = s.content block := by
    cases keeps with
    | closed settled sound _ same => exact fun block member => same block (by simp [member])
  cases opened with
  | opened tracks sound same saved =>
  have live : LiveArray entered.db books.begun root size elems := by
    refine .of_rep array (fun block kept => sound.used (held block kept)) fun block kept => ?_
    obtain ⟨member, bytes⟩ := mine block kept
    rw [same block (by simp [held block kept]), content, ← before block member, bytes]
  have fits : takesFit 3 books.begun.free.length books.begun.nblocks := takesFit_small (by
    change books.nblocks + 512 * 3 ≤ 2560
    omega)
  obtain ⟨last, _, _, got⟩ := arrayGet_live tracks sound.working depth i live fits
  refine ⟨last, (Code.bind_ok begun).trans (got.trans ?_)⟩
  unfold elementAt
  cases elems[i]? <;> rfl

/-! ## Making it -/

/-- Begin a transaction, make an array in a new block, make the calls on it and commit. -/
def storeArray (depth size : Nat) (ops : List ArrayOp) : Code EdbDb (Nat × List ArrayResult) := do
  edbTxnBegin depth
  let root ← edbAllocateBlock depth
  arrayInit root size
  let results ← runArrayOps (edbApi depth) root ops
  edbTxnCommit depth
  pure (root, results)

/-- What is in the file once an array is stored. -/
structure StoresArray (depth : Nat) (db : EdbDb) (held : List Nat) (root : Nat)
    (elems : List (List UInt8)) (committed : EdbDb) : Prop where
  /-- What was in use before has the bytes of before. -/
  same : ∀ block ∈ held ++ arrayWords db edbObjlist ++ otherBlocks db held, committed.data
    block = db.data block
  /-- The client has its blocks of before and the root. -/
  between : ∃ blocks, Between committed blocks ∧ ∀ block ∈ root :: held, block ∈ blocks
  /-- The file can be closed and opened again, and has the elements. -/
  reopens : ∀ {os : Os} {again : FileAnswer} {blocks : List Nat}, os.Succeeds →
    again.Grants ⟨committed.ctl.filesize, committed.data, blocks⟩ false →
    ∃ next, edbOpen again false false ⟨committed.data, closedEdb os⟩ = .ok () next ∧
      ∀ i, ∃ last, readArray depth root i next = elementAt elems i last

/-- The calls on an array, in a transaction that is lent them. -/
theorem Lent.runArrayOps (lent : Lent depth others base first own s l)
    (positive : 0 < size) (small : size ≤ 255) (limited : limit ≤ 521728)
    (room : 3 * limit + 1 ≤ own.room) (ops : List ArrayOp) (fits : OpsFit size limit ops []) :
    ∃ root begun middle last own' l', (edbApi (depth + 2)).allocate s.db = .ok root begun ∧
      arrayInit root size begun = .ok () middle ∧
      EverDb.runArrayOps (edbApi (depth + 2)) root ops middle =
        .ok (listOps size ops []).1 last.db ∧
      Lent depth others base first own' last l' ∧
      ArrayRep (lentContract depth others base first) limit own' last.db root size
        (listOps size ops []).2 := by
  let contract := lentContract depth others base first
  have valid : contract.Valid own s.db := ⟨s, l, rfl, lent⟩
  obtain ⟨root, begun, allocated, _, taken, _⟩ := contract.allocate valid (by omega)
  obtain ⟨middle, init, empty⟩ :=
    arrayInit_spec taken (.inr rfl : (own.taken root).writable root) small
    (show 3 * limit ≤ own.room - 1 by omega)
  obtain ⟨own', after, ran, array⟩ := runArrayOps_spec positive small limited ops empty fits
  obtain ⟨last, l', rfl, later⟩ := array.valid.1
  exact ⟨root, begun, middle, last, own', l', allocated, init, ran, later, array⟩

/-- An array that is made in a transaction and committed is in the file. The room is for
what the calls take at most while the file keeps to 1024 blocks. -/
theorem stored_array_reopens (between : Between db held) (positive : 0 < size) (small : size ≤ 255)
    (limited : limit ≤ 521728)
    (room : rootFits (3 * limit + 1) (arrayWords db edbFreelistPrimary).length db.ctl.nblocks)
    (ops : List ArrayOp) (fits : OpsFit size limit ops []) :
    ∃ root committed, storeArray (depth + 2) size ops db =
      .ok (root, (listOps size ops []).1) committed ∧
      StoresArray (depth + 2) db held root (listOps size ops []).2 committed := by
  have start := between.keeps
  obtain ⟨entered, ran, opened⟩ := start.begin_step (depth + 2)
  have client : entered.client = (Session.start db held).client.begun := Session.step_client ran
  have content : entered.content = db.data := by rw [Session.step_after ran]; rfl
  obtain ⟨_, _, begun, rest⟩ := Code.of_bind_ok (Session.step_call ran)
  cases rest
  obtain ⟨root, given, middle, last, own, l, allocated, init, made, lent, array⟩ :=
    (opened.lent room depth).runArrayOps positive small limited (Nat.le_refl _) ops fits
  obtain ⟨next, commits, keeps, mine, others, few, later, answers, run⟩ := lent.commits
  refine ⟨root, next.db, ?_, fun block member => ?_, ⟨next.client.held, keeps.between.1, ?_⟩,
    fun succeeds grants => ?_⟩
  · have entry : edbTxnBegin (depth + 2) db = .ok () entered.db := begun
    unfold storeArray edbAllocateBlock
    rw [Code.bind_ok entry, Code.bind_ok allocated, Code.bind_ok init, Code.bind_ok made,
      Code.bind_ok commits]
    rfl
  · rw [List.append_assoc] at member
    rcases List.mem_append.mp member with mineBefore | bystander
    · have held : block ∈ entered.client.held := by
        rw [client]
        exact mineBefore
      rw [(others block held).2, content]
    · have whole :
          Run (depth + 2) (Session.start db held) (.begin :: later) (.ok 0 :: answers) next :=
        .call trivial ((Session.inline_iff start .begin).mpr trivial) ran run
      exact (Session.Remembers.run whole (Session.start_remembers db held) start).stays
        (whole.keeps start).2.2 bystander
  · intro block member
    rcases List.mem_cons.mp member with rfl | before
    · exact (mine block (lent.usable_kept block
        (lent.live_usable block (lent.writable_live block array.valid.2)))).1
    · exact (others block (by rw [client]; exact before)).1
  · obtain ⟨again, reopened, data, _, kept, _⟩ :=
      keeps.reopened succeeds ⟨grants.descriptor, grants.fstat, grants.size⟩
    refine ⟨again, reopened, fun i => kept.readArray_run array (fun block kept => ?_) ?_ depth i⟩
    · obtain ⟨member, bytes⟩ := mine block kept
      exact ⟨member, (congrFun data block).trans bytes⟩
    · rw [← keeps.closed_lists.2.2.2.1]
      exact few

/-- Elements of 255 bytes in a new file: two data blocks and back into the root. -/
theorem stored_array_reopens_new :
    let ops : List ArrayOp :=
      [.push (Image.ofWord 7), .resize 17, .push (Image.ofWord 8), .resize 1]
    ∃ db root committed, storeArray 2 255 ops db = .ok (root, (listOps 255 ops []).1) committed ∧
      StoresArray 2 db [] root (listOps 255 ops []).2 committed := by
  intro ops
  obtain ⟨db, opened, _⟩ := edbOpenNew_run grantingOs_succeeds
  have keeps := newSession_keeps grantingOs_succeeds opened
  obtain ⟨between, free, _⟩ := keeps.between
  have empty : (arrayWords db edbFreelistPrimary).length = 0 := congrArg List.length free
  have nblocks : db.ctl.nblocks = 4 := keeps.closed_lists.2.2.2.1
  have fits : OpsFit 255 2 ops [] := ⟨by decide, by decide, by decide, by decide, trivial⟩
  have room : rootFits (3 * 2 + 1) (arrayWords db edbFreelistPrimary).length db.ctl.nblocks := by
    rw [empty, nblocks]
    decide +kernel
  exact ⟨db, stored_array_reopens between (by decide) (by decide) (by decide) room ops fits⟩

end EverDb
