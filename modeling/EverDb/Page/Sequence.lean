import EverDb.Block.Recorder
import EverDb.Page.Resize

/-!
# Any number of resizes

A page table over the recording allocator, from `page_init` on: the blocks that are
out are the root, the data blocks and the index blocks of the table, whatever the
resizes so far.
-/

namespace EverDb

open Foundation

variable {answer : List BlockEvent → Option Nat} {fresh : FreshAnswers answer}
  {grants : Grants answer}
  {own : Ownership} {db : Db (List BlockEvent)} {root limit : Nat}
  {blocks indexes others : List Nat}

/-- With the blocks that are out, a change of a page table keeps the account of
them. -/
theorem TableChange.account {later : Ownership} {after : Db (List BlockEvent)}
    {blocks' indexes' : List Nat}
    (change : TableChange own later db after root limit blocks indexes blocks' indexes')
    (held : HeldTable (recorderContract fresh grants) own db root limit blocks indexes)
    (heldAfter : HeldTable (recorderContract fresh grants) later after root limit blocks' indexes')
    (before : (outstanding db.ctl).Perm (blocks ++ indexes ++ others)) :
    (outstanding after.ctl).Perm (blocks' ++ indexes' ++ others) := by
  have valid : RecorderValid own db := held.valid
  have validAfter : RecorderValid later after := heldAfter.valid
  have distinct := before.nodup_iff.mp valid.distinct
  obtain ⟨_, othersDistinct, apart⟩ := List.nodup_append.mp distinct
  have out : ∀ block ∈ others, block ∈ outstanding db.ctl := fun block member =>
    before.mem_iff.mpr (List.mem_append_right _ member)
  have untouched : ∀ block ∈ others, block ∉ blocks ++ indexes := fun block member inside =>
    apart block inside block member rfl
  -- as many blocks are out as the table and the others have
  have total := valid.room
  have totalAfter := validAfter.room
  have size := before.length_eq
  obtain ⟨_, room⟩ := change.conserved fun block member =>
    (valid.writable block).mpr ((valid.live block).mp (held.live block member))
  simp only [List.length_append] at size
  have inside : blocks' ++ indexes' ++ others ⊆ outstanding after.ctl := by
    intro block member
    rcases List.mem_append.mp member with table | other
    · exact (validAfter.live block).mp (heldAfter.live block table)
    · by_cases here : block = root
      · exact here ▸ (validAfter.writable root).mp heldAfter.writable
      · have free := untouched block other
        rw [List.mem_append, not_or] at free
        have still := change.live block ((valid.kept block).mpr (out block other)) here free.2
          fun member => absurd member free.1
        exact (validAfter.live block).mp (still.mpr ((valid.live block).mpr (out block other)))
  have distinctAfter : (blocks' ++ indexes' ++ others).Nodup := by
    refine List.nodup_append.mpr ⟨(List.nodup_cons.mp heldAfter.distinct).2, othersDistinct, ?_⟩
    rintro block table other member rfl
    rcases change.fresh block table with old | new
    · exact untouched block member old
    · exact new ((valid.kept block).mpr (out block member))
  refine ((List.subperm_of_subset distinctAfter inside).perm_of_length_le ?_).symm
  simp only [List.length_append]
  omega

/-- A page table that has been resized: it has grown, or it has shrunk. -/
theorem pageResize_recorded {target : Nat}
    (held : HeldTable (recorderContract fresh grants) own db root limit blocks indexes)
    (account : (outstanding db.ctl).Perm (blocks ++ indexes ++ others))
    (few : others.length ≤ 4293402111) (fits : target ≤ 512 + 1024 * limit) :
    ∃ later after blocks' indexes', pageResize (recorder answer) root target db = .ok () after ∧
      HeldTable (recorderContract fresh grants) later after root limit blocks' indexes' ∧
      (outstanding after.ctl).Perm (blocks' ++ indexes' ++ others) ∧ blocks'.length = target ∧
      ∀ i, i < target → i < blocks.length → blocks'[i]? = blocks[i]? := by
  have valid : RecorderValid own db := held.valid
  have total := valid.room
  have size := account.length_eq
  have table := held.table
  have limited := table.limited
  have bounded := table.fits
  have spans := table.spans
  rw [indexCount] at spans
  simp only [List.length_append] at size
  by_cases more : blocks.length ≤ target
  · obtain ⟨after, ran, later, blocks', indexes', grown⟩ :=
      pageResize_grow held more fits (by omega)
    refine ⟨later, after, blocks', indexes', ran, grown.held,
      grown.change.account held grown.held account, grown.length, ?_⟩
    intro i _ inside
    obtain ⟨added, rfl⟩ := grown.extends_
    rw [List.getElem?_append_left inside]
  · obtain ⟨after, ran, later, indexes', shrunk⟩ :=
      pageResize_shrink held (show target ≤ blocks.length by omega) (by omega)
    refine ⟨later, after, _, indexes', ran, shrunk.held,
      shrunk.change.account held shrunk.held account, ?_, ?_⟩
    · rw [List.length_take]
      omega
    · intro i inside _
      rw [List.getElem?_take_of_lt inside]

/-- The table that `page_init` leaves. -/
theorem pageInit_held {before : Db (List BlockEvent)} (limited : limit ≤ 511)
    (out : outstanding before.ctl = [root]) (number : 0 < root ∧ root < 4294967296) :
    HeldTable (recorderContract fresh grants) (holding before.ctl)
      (before.write root Image.zero) root
      limit [] [] := by
  have rootOut : root ∈ outstanding before.ctl := by simp [out]
  have valid : RecorderValid (holding before.ctl) before :=
    holding_valid (by simp [out]) (by simpa [out] using number)
  refine ⟨valid.congr rfl,
    ⟨?_, limited, by simp, by decide, by simp, by simp, by simp, ?_⟩, rootOut, by simp, by simp⟩
  · rw [Db.write_data_self]
    rfl
  · intro j _ _
    rw [Db.write_data_self]
    exact Image.word_eq_zero fun _ _ => rfl

/-- Calls of `page_resize` on one root, one after another. -/
def pageResizes {ρ : Type} (api : BlockApi (Db ρ)) (root : Nat) : List Nat → Code (Db ρ) Unit
  | [] => .ret ()
  | target :: targets => do
      pageResize api root target
      pageResizes api root targets

/-- After any resizes the table has its blocks and no other block is out. -/
theorem pageResizes_held {targets : List Nat} :
    ∀ {own : Ownership} {db : Db (List BlockEvent)} {blocks indexes : List Nat},
      HeldTable (recorderContract fresh grants) own db root 511 blocks indexes →
      (outstanding db.ctl).Perm (blocks ++ indexes ++ [root]) →
      (∀ target ∈ targets, target ≤ 512 + 511 * 1024) →
      ∃ later after blocks' indexes', pageResizes (recorder answer) root targets db = .ok () after ∧
        HeldTable (recorderContract fresh grants) later after root 511 blocks' indexes' ∧
        (outstanding after.ctl).Perm (blocks' ++ indexes' ++ [root]) := by
  induction targets with
  | nil =>
      intro own db blocks indexes held account _
      exact ⟨own, db, blocks, indexes, rfl, held, account⟩
  | cons target targets ih =>
      intro own db blocks indexes held account fits
      obtain ⟨middle, between, blocks₁, indexes₁, ran, heldBetween, accountBetween, _⟩ :=
        pageResize_recorded held account (by simp) (by have := fits target (by simp); omega)
      obtain ⟨later, after, blocks', indexes', rest, heldAfter, accountAfter⟩ :=
        ih heldBetween accountBetween fun other member => fits other (by simp [member])
      refine ⟨later, after, blocks', indexes', ?_, heldAfter, accountAfter⟩
      rw [pageResizes, Code.bind_ok ran, rest]

/-- What a resize to `target` blocks leaves. The blocks that are out, each obtained
once more than it was given back, are the root and those the table uses. -/
structure SizedTable (root target : Nat) (db after : Db (List BlockEvent)) : Prop where
  count : ptNblocks after root = target
  keeps : ∀ i, i < ptNblocks db root → i < target →
    pageReadHostIndex after root i = pageReadHostIndex db root i
  owns : ∃ blocks indexes : List Nat, blocks.length = target ∧ indexes.length = indexCount target ∧
    (root :: (blocks ++ indexes)).Nodup ∧
    (∀ i block, blocks[i]? = some block → pageReadHostIndex after root i = (0, block)) ∧
    (∀ i, target ≤ i → (pageReadHostIndex after root i).1 = edbErrPageOutOfBounds) ∧
    (∀ j index, indexes[j]? = some index → (after.data root).word (indexWord j) = index) ∧
    (outstanding after.ctl).Perm (root :: (blocks ++ indexes))

/-- From `page_init` on, every `page_resize` in any sequence of them leaves exactly
the table asked for. -/
theorem pageResize_sequence (fresh : FreshAnswers answer) (grants : Grants answer)
    (out : outstanding db.ctl = [root]) (number : 0 < root ∧ root < 4294967296) (targets : List Nat)
    (target : Nat) (fits : ∀ count ∈ target :: targets, count ≤ 512 + 511 * 1024) :
    ∃ before after,
      (pageInit root >>= fun _ => pageResizes (recorder answer) root targets) db = .ok () before ∧
      pageResize (recorder answer) root target before = .ok () after ∧
      SizedTable root target before after := by
  have start : HeldTable (recorderContract fresh grants) _ _ root 511 [] [] :=
    pageInit_held (by decide) out number
  have account : (outstanding (db.write root Image.zero).ctl).Perm ([] ++ [] ++ [root]) := by
    rw [Db.write_ctl, out]
    exact List.Perm.refl _
  obtain ⟨own, before, blocks, indexes, first, held, accountBefore⟩ :=
    pageResizes_held start account fun count member => fits count (List.mem_cons_of_mem _ member)
  obtain ⟨later, after, blocks', indexes', ran, heldAfter, accountAfter, length, same⟩ :=
    pageResize_recorded held accountBefore (by simp) (by have := fits target (by simp); omega)
  have table := held.table
  have tableAfter := heldAfter.table
  have count : ptNblocks after root = target := by rw [ptNblocks, tableAfter.count, length]
  refine ⟨before, after, first, ran, count, ?_, blocks', indexes', length, ?_, heldAfter.distinct,
    fun i block found => tableAfter.read found, ?_, tableAfter.index, ?_⟩
  · intro i inside below
    rw [ptNblocks, table.count] at inside
    have found := List.getElem?_eq_getElem inside
    rw [table.read found, tableAfter.read ((same i below inside).trans found)]
  · rw [tableAfter.spans, length]
  · intro i above
    simp only [pageReadHostIndex, count, if_pos above]
  · exact accountAfter.trans (List.perm_append_singleton root _)

/-- Growing past the first index block and shrinking again, over the allocator that
answers with the least unused block. -/
theorem pageResize_sequence_least :
    ∃ before after,
      (pageInit 4 >>= fun _ => pageResizes (recorder leastUnused) 4 [513, 2000])
      ⟨fun _ => Image.zero,
        [.taken 4]⟩ = .ok () before ∧
      pageResize (recorder leastUnused) 4 512 before = .ok () after ∧
      SizedTable 4 512 before after :=
  pageResize_sequence leastUnused_fresh leastUnused_grants rfl (by decide) [513,
    2000] 512 (by decide)

end EverDb
