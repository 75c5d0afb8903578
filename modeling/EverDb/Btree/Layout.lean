import EverDb.Btree.Placed
import EverDb.Foundation.Assoc

/-!
# Laying a tree out in memory

Every placed tree whose block numbers are distinct and whose words fit is stored
in some memory, so statements about stored trees can be instantiated.
-/

namespace EverDb

open Foundation BPlus

/-- Write entries into a node from a place on. -/
def writeRow : Nat → List (Nat × Nat) → Image → Image
  | _, [], bt => bt
  | i, (k, value) :: rest, bt => writeRow (i + 1) rest (Bt.setData (Bt.setKey bt i k) i value)

/-- The image of a node. -/
def nodeImage (h : Nat) (row : List (Nat × Nat)) : Image :=
  Bt.setSelfSize (writeRow 0 row (Bt.setMagic Image.zero (nodeMagic h))) row.length

/-- The words of an entry are `u32`. -/
def Words (entry : Nat × Nat) : Prop := entry.1 < 4294967296 ∧ entry.2 < 4294967296

instance (entry : Nat × Nat) : Decidable (Words entry) :=
  inferInstanceAs (Decidable (entry.1 < 4294967296 ∧ entry.2 < 4294967296))

variable {h : Nat} {row : List (Nat × Nat)} {bt : Image}

/-- Writing a row leaves the magic number. -/
theorem magic_writeRow (start : Nat) : Bt.magic (writeRow start row bt) = Bt.magic bt := by
  induction row generalizing start bt with
  | nil => rfl
  | cons entry rest ih => rw [writeRow, ih, Bt.magic_setData, Bt.magic_setKey]

/-- An entry below the start is kept, the others are the written ones. -/
theorem entry_writeRow {start : Nat} (words : ∀ entry ∈ row, Words entry)
    (small : start + row.length ≤ 510) {i : Nat} (inside : i < start + row.length) :
    Bt.entry (writeRow start row bt) i =
      if i < start then Bt.entry bt i else row.getD (i - start) (0, 0) := by
  induction row generalizing start bt with
  | nil =>
      rw [List.length_nil, Nat.add_zero] at inside
      rw [if_pos inside, writeRow]
  | cons entry rest ih =>
      rw [List.length_cons] at small inside
      obtain ⟨keyBounded, valueBounded⟩ := words entry List.mem_cons_self
      rw [writeRow, ih (fun other member => words other (List.mem_cons_of_mem _ member)) (by omega)
        (by omega), Bt.entry_write (by omega) keyBounded valueBounded (by omega)]
      rcases Nat.lt_trichotomy i start with less | same | more
      · rw [if_pos (by omega), if_neg (by omega), if_pos less]
      · rw [if_pos (by omega), if_pos same, if_neg (by omega), same, Nat.sub_self,
          List.getD_cons_zero]
      · obtain ⟨step, rfl⟩ := Nat.exists_eq_add_of_lt more
        rw [if_neg (by omega), if_neg (by omega), show start + step + 1 - start = step + 1 by omega,
          show start + step + 1 - (start + 1) = step by omega, List.getD_cons_succ]

/-- The image of a row of words lists it. -/
theorem nodeImage_nodeAt (words : ∀ entry ∈ row, Words entry) (small : row.length ≤ 510) :
    NodeAt (nodeImage h row) h row := by
  constructor
  · have magic : nodeMagic h < 4294967296 := by
      cases h with
      | zero => decide
      | succ h => exact show edbMagicBtree < 4294967296 by decide
    rw [nodeImage, Bt.magic_setSelfSize, magic_writeRow, Bt.magic_setMagic magic]
  · refine Bt.entries_eq (Bt.selfSize_setSelfSize (by omega)) fun i inside => ?_
    rw [nodeImage, Bt.entry_setSelfSize, entry_writeRow words (by omega) (by omega),
      if_neg (Nat.not_lt_zero i), Nat.sub_zero, List.getD_eq_getElem?_getD,
      List.getElem?_eq_getElem inside, Option.getD_some]

namespace Placed

/-- The images of a tree's nodes. -/
def images : (h : Nat) → Placed h → List (Nat × Image)
  | 0, leaf => [(leaf.block, nodeImage 0 leaf.row)]
  | h + 1, node =>
      (node.block, nodeImage (h + 1) node.row) :: node.entries.flatMap fun entry => images h entry.2

/-- Every node fits into a block. -/
def Fits : (h : Nat) → Placed h → Prop
  | 0, leaf => (∀ entry ∈ leaf.row, Words entry) ∧ leaf.entries.length ≤ 510
  | h + 1, node => (∀ entry ∈ node.row, Words entry) ∧ node.entries.length ≤ 510 ∧
      ∀ entry ∈ node.entries, Fits h entry.2

/-- Whether a tree fits into blocks can be checked. -/
instance Fits.decidable : (h : Nat) → (node : Placed h) → Decidable (Fits h node)
  | 0, leaf =>
      inferInstanceAs (Decidable ((∀ entry ∈ leaf.row, Words entry) ∧ leaf.entries.length ≤ 510))
  | h + 1, node =>
      have := Fits.decidable h
      inferInstanceAs (Decidable ((∀ entry ∈ node.row, Words entry) ∧ node.entries.length ≤ 510 ∧
        ∀ entry ∈ node.entries, Fits h entry.2))

/-- A memory that holds some images. -/
def memory (images : List (Nat × Image)) (block : Nat) : Image :=
  (images.lookup block).getD Image.zero

/-- There is an image for each block. -/
theorem images_blocks (node : Placed h) : (images h node).map Prod.fst = blocks h node := by
  induction h with
  | zero => rfl
  | succ h ih =>
      rw [images, blocks, List.map_cons, List.map_flatMap]
      congr 1
      exact List.flatMap_congr fun entry _ => ih entry.2

/-- A tree is stored where its images are. -/
theorem stored_of_images {ρ : Type} {db : Db ρ} {node : Placed h} (fits : Fits h node)
    (there : ∀ image ∈ images h node, db.data image.1 = image.2) : Stored db h node := by
  induction h with
  | zero =>
      have here : db.data node.block = nodeImage 0 node.row := there _ List.mem_cons_self
      rw [Stored, here]
      exact nodeImage_nodeAt fits.1 ((row_length node).symm ▸ fits.2)
  | succ h ih =>
      obtain ⟨words, small, below⟩ := fits
      constructor
      · have here : db.data node.block = nodeImage (h + 1) node.row := there _ List.mem_cons_self
        rw [here]
        exact nodeImage_nodeAt words ((row_length node).symm ▸ small)
      · intro entry member
        refine ih (below entry member) fun image inside => there image ?_
        exact List.mem_cons_of_mem _ (List.mem_flatMap.mpr ⟨entry, member, inside⟩)

/-- A tree with distinct blocks is stored in the memory made of its images. -/
theorem stored_memory {ρ : Type} {ctl : ρ} {node : Placed h} (fits : Fits h node)
    (distinct : (blocks h node).Nodup) : Stored ⟨memory (images h node), ctl⟩ h node := by
  refine stored_of_images fits fun image member => ?_
  rw [← images_blocks] at distinct
  have found := (Assoc.lookup_eq_some distinct).mpr member
  change ((images h node).lookup image.1).getD Image.zero = image.2
  rw [found, Option.getD_some]

/-- The memory made of the images of a tree holds it. -/
theorem held_memory {ρ : Type} {ctl : ρ} {node : Placed h} (fits : Fits h node)
    (distinct : (blocks h node).Nodup) :
    Held {block | block ∈ blocks h node} ⟨memory (images h node), ctl⟩ h node :=
  ⟨stored_memory fits distinct, distinct, fun _ member => member⟩

end Placed

end EverDb
