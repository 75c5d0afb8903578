import EverDb.Btree.Set
import EverDb.Foundation.Relocation

/-!
# The B+ tree through pointers

`btree_set` with the pointers it keeps: `bt` and `b0` are computed before the recursive
call and used after it.
-/

namespace EverDb.Pointer

open Foundation Bt

variable {ρ : Type}

/-- What a split leaves: the new block, and the pointers computed after it was taken. -/
structure Halves where
  child1 : Nat
  bt : Nat
  b0 : Nat
  b1 : Nat

/-- The split in `btree_set`. -/
def btreeSplit (api : BlockApi (Db ρ)) (root b child0 bt : Nat) : Code (Mapped (Db ρ)) Halves := do
  .access bt (editNode root fun node => listInsert node (b + 1) 0 0)
  let child1 ← .relocating api.allocate
  let fresh ← .here
  .access fresh (btreeInit child1)
  let bt ← .here
  let b0 ← .here
  let b1 ← .here
  let child ← .access b0 (.gets fun db => db.data child0)
  .access b1 (editNode child1 fun node => setMagic node (magic child))
  .access bt (editNode root fun node => setData node (b + 1) child1)
  let child ← .access b0 (.gets fun db => db.data child0)
  .access b1 (editNode child1 fun node =>
    moveEntries child edbBtreeSplit (selfSize child - edbBtreeSplit) edbBtreeSplit node)
  .access b1 (editNode child1 fun node => setSelfSize node (sub32 (selfSize child) edbBtreeSplit))
  .access b0 (editNode child0 fun node => setSelfSize node edbBtreeSplit)
  pure ⟨child1, bt, b0, b1⟩

/-- The internal case of `btree_set`, once child `b` is writable; `set` is the recursive
call. -/
def btreeSetChild (api : BlockApi (Db ρ)) (set : Nat → Nat → Nat → Code (Mapped (Db ρ)) Unit)
    (root b k value child0 bt b0 : Nat) : Code (Mapped (Db ρ)) Unit := do
  .access bt (editNode root fun node => setData node b child0)
  let r ← (set child0 k value).attempt
  if r = 0 then do
    -- `b0` and `bt` were computed before the call
    let child ← .access b0 (.gets fun db => db.data child0)
    .access bt (editNode root fun node => setKey node b (lastKey child))
  else if r = edbErrorBtreeFull then do
    let node ← .access bt (.gets fun db => db.data root)
    if selfSize node < edbBtreeSize then do
      let halves ← btreeSplit api root b child0 bt
      let node ← .access halves.bt (.gets fun db => db.data root)
      if k ≤ key node b then set (data node b) k value else set (data node (b + 1)) k value
      let child ← .access halves.b0 (.gets fun db => db.data child0)
      .access halves.bt (editNode root fun node => setKey node b (lastKey child))
      let child ← .access halves.b1 (.gets fun db => db.data halves.child1)
      .access halves.bt (editNode root fun node => setKey node (b + 1) (lastKey child))
    else .fail edbErrorBtreeFull
  else .fail r

/-- `btree_set`, to a depth of calls. -/
def btreeSet (api : BlockApi (Db ρ)) : Nat → Nat → Nat → Nat → Code (Mapped (Db ρ)) Unit
  | 0, _, _, _ => .diverge
  | depth + 1, root, k, value => do
      let bt ← .here
      let node ← .access bt (.gets fun db => db.data root)
      if !isBtree node then .fail edbErrorDataCorrupt
      else if magic node = edbMagicBtreeLeaf then .access bt (btreeSetLeaf root k value)
      -- an internal node without entries would be read at `data[-1]`
      else if selfSize node = 0 then .diverge
      else do
        let found := listFind node k
        let b := if found = selfSize node then found - 1 else found
        let child0 ← .relocating (api.modify (data node b))
        let bt ← .here
        let b0 ← .here
        btreeSetChild api (btreeSet api depth) root b k value child0 bt b0

/-! ## What the pointers reach -/

variable {mode : Code.Mode} (api : BlockApi (Db ρ))

theorem btreeSplit_follows (root b child0 : Nat) {bt : Nat} (valid : mode.Valid bt) :
    Code.Follows mode (fun halves child1 => halves.child1 = child1 ∧ mode.Valid halves.bt ∧
      mode.Valid halves.b0 ∧
        mode.Valid halves.b1) (btreeSplit api root b child0 bt)
          (EverDb.btreeSplit api root b child0) := by
  unfold btreeSplit EverDb.btreeSplit
  refine (Code.Follows.access valid _).bind fun _ _ _ => (Code.Follows.relocating _).bind ?_
  rintro child1 _ rfl
  refine .here_bind fun fresh valid => (Code.Follows.access valid _).bind fun _ _ _ => ?_
  refine .here_bind fun bt parent => .here_bind fun b0 low => .here_bind fun b1 high => ?_
  refine (Code.Follows.access low _).bind ?_
  rintro child _ rfl
  refine (Code.Follows.access high _).bind fun _ _ _ =>
    (Code.Follows.access parent _).bind fun _ _ _ => ?_
  refine (Code.Follows.access low _).bind ?_
  rintro child _ rfl
  refine (Code.Follows.access high _).bind fun _ _ _ =>
    (Code.Follows.access high _).bind fun _ _ _ => ?_
  exact (Code.Follows.access low _).bind fun _ _ _ => .ret ⟨rfl, parent, low, high⟩

/-- `btree_set` agrees with the run over block numbers, or an access trapped. On an
internal node it calls `edb_modify_block` before it returns. -/
theorem btreeSet_matches (depth : Nat) :
    ∀ (root k value : Nat) (db : Db ρ) (base : Nat) (moves : Nat → Bool),
    mode.Admits base moves →
    Code.Matches mode Eq (if magic (db.data root) = edbMagicBtree then Mapped.nextBase base moves
      else base)
      (btreeSet api depth root k value ⟨db, base, moves⟩)
      (EverDb.btreeSet api depth root k value db) := by
  induction depth with
  | zero => exact fun _ _ _ _ _ _ _ => .stuck
  | succ depth ih =>
      have follows : ∀ root k value, Code.Follows mode Eq (btreeSet api depth root k value)
          (EverDb.btreeSet api depth root k value) := by
        intro root k value db base moves admitted
        refine (ih root k value db base moves admitted).weaken ?_
        have onward := Mapped.le_nextBase base moves
        split <;> omega
      intro root k value db base moves admitted
      unfold btreeSet EverDb.btreeSet
      rw [Code.here_bind, Code.access_bind (Code.gets_run _ _), Code.gets_bind]
      by_cases corrupt : (!isBtree (db.data root)) = true
      · rw [if_pos corrupt, if_pos corrupt, if_neg]
        · exact .error admitted (Nat.le_refl _)
        · intro internal
          simp [isBtree, internal] at corrupt
      rw [if_neg corrupt, if_neg corrupt]
      by_cases leaf : magic (db.data root) = edbMagicBtreeLeaf
      · rw [if_pos leaf, if_pos leaf, if_neg (by rw [leaf]; decide)]
        exact Code.Follows.access (mode.here admitted) _ db base moves admitted
      rw [if_neg leaf, if_neg leaf]
      by_cases empty : selfSize (db.data root) = 0
      · rw [if_pos empty, if_pos empty]
        exact .stuck
      rw [if_neg empty, if_neg empty, if_pos (by simpa [isBtree, leaf] using corrupt)]
      refine Code.Follows.relocating_bind _ admitted fun child0 => ?_
      refine .here_bind fun bt parent => .here_bind fun b0 low => ?_
      unfold btreeSetChild
      refine (Code.Follows.access parent _).bind fun _ _ _ =>
        (follows child0 k value).attempt.bind ?_
      rintro r _ rfl
      refine .ite ?_ (.ite ?_ (.fail _))
      · refine (Code.Follows.access low _).bind ?_
        rintro child _ rfl
        exact .access parent _
      · refine (Code.Follows.access parent _).bind ?_
        rintro node _ rfl
        refine .ite ?_ (.fail _)
        refine (btreeSplit_follows api root _ child0 parent).bind ?_
        rintro halves _ ⟨rfl, parent, low, high⟩
        refine (Code.Follows.access parent _).bind ?_
        rintro node _ rfl
        have finish : Code.Follows mode Eq
            (.access halves.b0 (.gets fun db : Db ρ => db.data child0) >>= fun child =>
              .access halves.bt (editNode root fun bt => setKey bt
                (if listFind (db.data root) k = selfSize (db.data root) then listFind
                  (db.data root) k - 1
                  else listFind (db.data root) k) (lastKey child)) >>= fun _ =>
              .access halves.b1 (.gets fun db => db.data halves.child1) >>= fun child =>
              .access halves.bt (editNode root fun bt => setKey bt
                ((if listFind (db.data root) k = selfSize (db.data root) then listFind
                  (db.data root) k - 1
                  else listFind (db.data root) k) + 1) (lastKey child)))
            (.gets (fun db : Db ρ => db.data child0) >>= fun b0 =>
              editNode root (fun bt => setKey bt
                (if listFind (db.data root) k = selfSize (db.data root) then listFind
                  (db.data root) k - 1
                  else listFind (db.data root) k) (lastKey b0)) >>= fun _ =>
              .gets (fun db => db.data halves.child1) >>= fun b1 =>
              editNode root fun bt => setKey bt
                ((if listFind (db.data root) k = selfSize (db.data root) then listFind
                  (db.data root) k - 1
                  else listFind (db.data root) k) + 1) (lastKey b1)) := by
          refine (Code.Follows.access low _).bind ?_
          rintro child _ rfl
          refine (Code.Follows.access parent _).bind fun _ _ _ =>
            (Code.Follows.access high _).bind ?_
          rintro child _ rfl
          exact .access parent _
        exact .ite ((follows _ k value).bind fun _ _ _ =>
          finish) ((follows _ k value).bind fun _ _ _ => finish)

theorem btreeSet_follows (depth root k value : Nat) :
    Code.Follows mode Eq (btreeSet api depth root k value)
      (EverDb.btreeSet api depth root k value) := by
  intro db base moves admitted
  refine (btreeSet_matches api depth root k value db base moves admitted).weaken ?_
  have onward := Mapped.le_nextBase base moves
  split <;> omega

end EverDb.Pointer
