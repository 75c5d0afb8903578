import EverDb.Btree.Placed
import Mathlib.Data.List.Nodup
import Mathlib.Data.List.Perm.Basic

/-!
# Distributing entries anew

Adjacent children of a node exchange entries, or one of them takes all of them. The
blocks below the entries do not change, so only the children themselves and their
parent are touched.
-/

namespace EverDb

open Foundation

variable {ρ : Type} {h : Nat}

namespace Placed

/-- The blocks below some entries. -/
def under : (h : Nat) → List (Nat × Ref h) → List Nat
  | 0, _ => []
  | h + 1, entries => kids h entries

/-- The root blocks of some children. -/
def roots (pieces : List (Nat × Ref (h + 1))) : List Nat := pieces.map fun piece => piece.2.block

/-- The entries of some children, one after the other. -/
def content (pieces : List (Nat × Ref (h + 1))) : List (Nat × Ref h) :=
  pieces.flatMap fun piece => piece.2.entries

theorem below_eq (node : Placed h) : below h node = under h node.entries := by
  cases h <;> rfl

theorem under_append (left right : List (Nat × Ref h)) :
    under h (left ++ right) = under h left ++ under h right := by
  cases h with
  | zero => rfl
  | succ h => exact kids_append left right

/-- The blocks of some children are their root blocks and those below their entries. -/
theorem kids_perm (pieces : List (Nat × Ref (h + 1))) :
    (kids h pieces).Perm (roots pieces ++ under h (content pieces)) := by
  induction pieces with
  | nil =>
      cases h <;> exact List.Perm.refl _
  | cons piece rest ih =>
      have first : kids h (piece :: rest) =
          piece.2.block :: (under h piece.2.entries ++ kids h rest) := by
        rw [kids, List.flatMap_cons, blocks_eq, below_eq]
        rfl
      have last : under h (content (piece :: rest)) =
          under h piece.2.entries ++ under h (content rest) := under_append _ _
      have whole : roots (piece :: rest) = piece.2.block :: roots rest := rfl
      rw [first, last, whole, List.cons_append]
      refine List.Perm.cons _ ((ih.append_left _).trans ?_)
      rw [← List.append_assoc, ← List.append_assoc]
      exact List.Perm.append_right _ List.perm_append_comm

/-- A node over entries that were stored below some children. -/
theorem Stored.of_content {db after : Db ρ} {block : Nat} {entries : List (Nat × Ref h)}
    {pieces : List (Nat × Ref (h + 1))} (nodeAt : NodeAt (after.data block) h (rows h entries))
    (stored : ∀ piece ∈ pieces, Stored db h piece.2)
    (kept : ∀ entry ∈ entries, entry ∈ content pieces)
    (same : ∀ other ∈ under h (content pieces), after.data other = db.data other) :
    Stored after h (⟨block, entries⟩ : Placed h) := by
  cases h with
  | zero => exact nodeAt
  | succ h =>
      refine ⟨nodeAt, fun entry member => ?_⟩
      have inside := kept entry member
      obtain ⟨piece, pieceMember, below⟩ := List.mem_flatMap.mp inside
      refine ((stored piece pieceMember).2 entry below).congr fun other under => ?_
      exact same other (mem_kids.mpr ⟨entry, inside, under⟩)

end Placed

open Placed

variable {held later : Set Nat} {db after : Db ρ} {root : Nat}
  {front pieces others back : List (Nat × Ref (h + 1))}

/-- Some adjacent children distribute their entries anew. Blocks of children that are
left over may go. -/
theorem Trunk.regroup (trunk : Trunk held db h root (front ++ pieces ++ back))
    (entries : content others = content pieces) (fewer : (roots others).Sublist (roots pieces))
    (nodes : ∀ other ∈ others, NodeAt (after.data other.2.block) h (row other.2))
    (same : ∀ block ∈ held, block ≠ root → block ∉ roots pieces → after.data block = db.data block)
    (kept : ∀ block ∈ held, block ∉ roots pieces ∨ block ∈ roots others → block ∈ later) :
    Trunk later after h root (front ++ others ++ back) ∧
      Confined held later db after (root :: kids h (front ++ pieces ++ back))
        (root :: kids h (front ++ others ++ back)) := by
  have grove := (Grove.append.mp (Grove.append.mp trunk.grove).1).2.1
  have apart := (not_mem_kids.mp trunk.apart).2.1
  have perm := kids_perm pieces
  have permOthers := kids_perm others
  rw [entries] at permOthers
  obtain ⟨rootsDistinct, underDistinct, disjoint⟩ :=
    List.nodup_append.mp (perm.nodup_iff.mp grove.distinct)
  have inPieces : ∀ block ∈ under h (content pieces), block ∈ kids h pieces := fun block inside =>
    perm.mem_iff.mpr (List.mem_append_right _ inside)
  have rootInPieces : ∀ block ∈ roots others, block ∈ kids h pieces := fun block inside =>
    perm.mem_iff.mpr (List.mem_append_left _ (fewer.subset inside))
  have notRoots :
      ∀ block ∈ under h (content pieces), block ∉ roots pieces := fun block inside isRoot =>
    disjoint block isRoot block inside rfl
  have members : ∀ block ∈ kids h others, block ∈ kids h pieces ∧ block ∈ later := by
    intro block inside
    rcases List.mem_append.mp (permOthers.mem_iff.mp inside) with isRoot | below
    · have member := rootInPieces block isRoot
      exact ⟨member, kept block (grove.mine block member) (.inr isRoot)⟩
    · have member := inPieces block below
      exact ⟨member, kept block (grove.mine block member) (.inl (notRoots block below))⟩
  have replaced : Grove later after h others := by
    refine ⟨fun other member => ?_, ?_, fun block inside => (members block inside).2⟩
    · refine Stored.of_content (nodes other member) grove.stored (fun entry inside => ?_)
        fun block inside => ?_
      · rw [← entries]
        exact List.mem_flatMap.mpr ⟨other, member, inside⟩
      · refine same block (grove.mine block (inPieces block inside)) (fun equal => ?_)
          (notRoots block inside)
        exact apart (equal ▸ inPieces block inside)
    · rw [permOthers.nodup_iff, List.nodup_append]
      exact ⟨fewer.nodup rootsDistinct, underDistinct, fun low inRoots high below =>
        disjoint low (fewer.subset inRoots) high below⟩
  have confined : Confined held later db after (root :: kids h pieces) (root :: kids h others) := by
    constructor
    · intro block member outside
      rw [List.mem_cons, not_or] at outside
      have notRoot : block ∉ roots pieces := fun inside =>
        outside.2 (perm.mem_iff.mpr (List.mem_append_left _ inside))
      exact ⟨kept block member (.inl notRoot), same block member outside.1 notRoot⟩
    · intro block inside
      rcases List.mem_cons.mp inside with rfl | below
      · exact .inl List.mem_cons_self
      · exact .inl (List.mem_cons_of_mem _ (members block below).1)
  have notRoot : root ∉ roots pieces := fun inside =>
    apart (perm.mem_iff.mpr (List.mem_append_left _ inside))
  exact ⟨trunk.replace confined (kept root trunk.mine (.inl notRoot))
    (fun inside => apart (members root inside).1) replaced, Trunk.confinedRoot confined⟩

end EverDb
