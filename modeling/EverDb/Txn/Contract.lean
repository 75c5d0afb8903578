import EverDb.Block.Contract
import EverDb.Txn.Progress
import Mathlib.Order.Interval.Finset.Nat

/-!
# The block functions keep the contract

While the database has at most 1024 blocks its freelist lies in its root, and the
block functions of `edb.c` keep the promises of `BlockContract` to a client of an open
transaction. `EdbValid` says which blocks the client may have; it also fixes the
handles and the object list, which no block function touches.
-/

namespace EverDb

open Foundation

/-- Whether `count` blocks can be taken while the database keeps to 1024 blocks. -/
def rootFits : Nat → Nat → Nat → Prop
  | 0, _, nblocks => nblocks ≤ 1024
  | count + 1, 0, nblocks => grownBlocks nblocks ≤ 1024 ∧
      rootFits count (grownBlocks nblocks - (nblocks + 1)) (grownBlocks nblocks)
  | count + 1, length + 1, nblocks => rootFits count length nblocks

instance rootFitsDecidable : ∀ count length nblocks, Decidable (rootFits count length nblocks)
  | 0, _, _ => inferInstanceAs (Decidable (_ ≤ _))
  | count + 1, 0, nblocks =>
      have := rootFitsDecidable count (grownBlocks nblocks - (nblocks + 1)) (grownBlocks nblocks)
      inferInstanceAs (Decidable (_ ∧ _))
  | count + 1, length + 1, nblocks => rootFitsDecidable count length nblocks

theorem rootFits_le {count length nblocks : Nat} (bounded : nblocks < 1048576)
    (fits : rootFits count length nblocks) : nblocks ≤ 1024 := by
  induction count generalizing length with
  | zero => exact fits
  | succ count ih =>
      cases length with
      | zero =>
          have grows := lt_grownBlocks bounded
          have within := fits.1
          omega
      | succ length => exact ih fits

/-- Taking one block leaves room for the others. -/
theorem rootFits_take {count : Nat} {base : Books} {l : Ledger} (working : l.Working base)
    (fits : rootFits (count + 1) l.free.length l.nblocks) :
    takesFit 1 l.free.length l.nblocks ∧ rootFits count l.take.2.free.length l.take.2.nblocks := by
  have user := working.user
  have grown := working.grown
  rcases List.eq_nil_or_concat' l.free with none | ⟨rest, last, split⟩
  · rw [none] at fits ⊢
    have within := fits.1
    refine ⟨⟨⟨by omega, by omega⟩, trivial⟩, ?_⟩
    simpa [Ledger.take, none] using fits.2
  · have length : l.free.length = rest.length + 1 := by simp [split]
    rw [length] at fits ⊢
    refine ⟨trivial, ?_⟩
    change rootFits count rest.length l.nblocks at fits
    simpa [Ledger.take, split] using fits

/-- The client's view of its blocks agrees with the bookkeeping. -/
structure Ledger.Owned (l : Ledger) (own : Ownership) : Prop where
  writable_live : ∀ block, own.writable block → own.live block
  live_usable : ∀ block, own.live block → own.usable block
  usable_kept : ∀ block, own.usable block → own.kept block
  kept : ∀ block, own.kept block → 4 ≤ block ∧ block < l.nblocks ∧ block ∉ l.free ∧
    block ≠ l.objlist
  unfreed : ∀ block, own.usable block → l.table.get block ≠ freed
  state : ∀ block, own.usable block → (own.writable block ↔ l.table.get block ≠ 0)
  /-- The source of a copy is kept, and no live block. -/
  source : ∀ block, own.live block → l.table.get block ≠ 0 → l.table.get block ≠ allocated →
    own.kept (l.table.get block) ∧ ¬own.live (l.table.get block)
  room : rootFits own.room l.free.length l.nblocks

/-- What the block functions do not touch. -/
structure Fixed where
  base : Books
  objects : List Nat
  objlist : Nat
  handles : List ObjHandle
  txnId : Nat

/-- A database whose client has the given view. -/
structure EdbValid (fixed : Fixed) (own : Ownership) (db : EdbDb) (l : Ledger) : Prop where
  tracks : Tracks db fixed.base l
  working : l.Working fixed.base
  owned : l.Owned own
  objects : l.objects = fixed.objects
  objlist : l.objlist = fixed.objlist
  handles : db.ctl.handles = fixed.handles
  txnId : db.ctl.txnId = fixed.txnId

variable {fixed : Fixed} {own : Ownership} {db : EdbDb} {l : Ledger} {block : Nat}

theorem Ledger.Owned.used (owned : l.Owned own) (usable : own.usable block) : l.Used block := by
  have inside := owned.kept block (owned.usable_kept block usable)
  exact ⟨inside.1, inside.2.1, inside.2.2.1, owned.unfreed block usable⟩

/-- A block that was taken is not one the client keeps. -/
theorem EdbValid.fresh (valid : EdbValid fixed own db l) {after : Ledger} {new : Nat}
    (taken : Ledger.Taken l after new) : ¬own.kept new := by
  intro kept
  have inside := valid.owned.kept new kept
  rcases taken.fresh with free | ⟨beyond, _⟩
  · exact inside.2.2.1 free
  · omega

/-- A taken block gets a state, and the client gets the block. -/
theorem EdbValid.taken (valid : EdbValid fixed own db l) {mid : Ledger} {new state : Nat}
    {table : MemHash} {later : Ownership} {after : EdbDb} (taken : Ledger.Taken l mid new)
    (effect : TableSet l.table table new state)
    (tracks : Tracks after fixed.base { mid with table := table }) (handles : db.SameHandles after)
    (keeps : ∀ other, later.kept other ↔ own.kept other ∨ other = new)
    (uses : ∀ other, later.usable other ↔ own.usable other ∨ other = new)
    (lives : ∀ other, later.live other → own.live other ∨ other = new)
    (writes : ∀ other, later.writable other ↔ own.writable other ∨ other = new)
    (nested : (∀ other, later.writable other → later.live other) ∧ ∀ other, later.live other →
      later.usable other)
    (valued : state ≠ 0 ∧ state ≠ freed)
    (sourced : state ≠ allocated → own.kept state ∧ ¬later.live state)
    (room : rootFits later.room mid.free.length mid.nblocks) :
    EdbValid fixed later after { mid with table := table } := by
  have range := valid.working.taken_range taken
  have fresh := valid.fresh taken
  have more := taken.grown
  have apart : ∀ other, own.kept other → other ≠ new := fun other kept same => fresh (same ▸ kept)
  have old : ∀ other, own.kept other → table.get other = l.table.get other := fun other kept => by
    rw [effect.get, if_neg (apart other kept)]
  have usableKept := valid.owned.usable_kept
  have liveKept : ∀ other, own.live other → own.kept other := fun other live =>
    usableKept other (valid.owned.live_usable other live)
  refine ⟨tracks, (valid.working.copied taken effect).1,
    ⟨nested.1, nested.2, ?_, ?_, ?_, ?_, ?_, room⟩,
    taken.objects.trans valid.objects, taken.objlist.trans valid.objlist,
    handles.handles.trans valid.handles, handles.txnId.trans valid.txnId⟩
  · intro other usable
    rcases (uses other).mp usable with before | same
    · exact (keeps other).mpr (.inl (usableKept other before))
    · exact (keeps other).mpr (.inr same)
  · intro other kept
    rcases (keeps other).mp kept with before | rfl
    · have inside := valid.owned.kept other before
      refine ⟨inside.1, Nat.lt_of_lt_of_le inside.2.1 more,
        ?_, by rw [taken.objlist]; exact inside.2.2.2⟩
      intro free
      rcases (valid.working.free_after taken free).2.1 with was | beyond
      · exact inside.2.2.1 was
      · omega
    · refine ⟨range.1, range.2.1, range.2.2.1, ?_⟩
      rw [taken.objlist]
      intro same
      rcases taken.fresh with free | ⟨beyond, _⟩
      · exact valid.working.objlist.2.2 (same ▸ free)
      · have := valid.working.objlist.2.1
        omega
  · intro other usable
    rcases (uses other).mp usable with before | rfl
    · change table.get other ≠ freed
      rw [old other (usableKept other before)]
      exact valid.owned.unfreed other before
    · change table.get other ≠ freed
      rw [effect.get, if_pos rfl]
      exact valued.2
  · intro other usable
    change later.writable other ↔ table.get other ≠ 0
    rw [writes other]
    rcases (uses other).mp usable with before | rfl
    · rw [old other (usableKept other before), ← valid.owned.state other before]
      exact ⟨fun writable => writable.resolve_right (apart other (usableKept other before)), .inl⟩
    · rw [effect.get, if_pos rfl]
      exact iff_of_true (.inr rfl) valued.1
  · intro other live used notNew
    change table.get other ≠ 0 at used
    change table.get other ≠ allocated at notNew
    change later.kept (table.get other) ∧ ¬later.live (table.get other)
    rcases lives other live with before | rfl
    · rw [old other (liveKept other before)] at used notNew ⊢
      obtain ⟨kept, dead⟩ := valid.owned.source other before used notNew
      refine ⟨(keeps _).mpr (.inl kept), fun again => ?_⟩
      rcases lives _ again with was | same
      · exact dead was
      · exact apart _ kept same
    · rw [effect.get, if_pos rfl] at used notNew ⊢
      obtain ⟨kept, dead⟩ := sourced notNew
      exact ⟨(keeps _).mpr (.inl kept), dead⟩

open Classical in
/-- A live block is given back: it joins the freelist if it was writable. -/
theorem EdbValid.released (valid : EdbValid fixed own db l) (live : own.live block)
    {l' : Ledger} {after : EdbDb}
    (tracks : Tracks after fixed.base l') (working : l'.Working fixed.base)
    (handles : db.SameHandles after)
    (objects : l'.objects = l.objects) (objlist : l'.objlist = l.objlist)
    (nblocks : l'.nblocks = l.nblocks)
    (states : ∀ other, own.live other → other ≠ block → l'.table.get other = l.table.get other)
    (free : l'.free = if own.writable block then l.free ++ [block] else l.free) :
    EdbValid fixed (own.freed block) after l' := by
  have owned := valid.owned
  refine ⟨tracks, working, ⟨?_, fun _ usable => usable, ?_, ?_, ?_, ?_, ?_, ?_⟩,
    objects.trans valid.objects,
    objlist.trans valid.objlist, handles.handles.trans valid.handles,
      handles.txnId.trans valid.txnId⟩
  · exact fun other writable => ⟨owned.writable_live other writable.1, writable.2⟩
  · exact fun other usable =>
      ⟨owned.usable_kept other (owned.live_usable other usable.1), fun given => usable.2 given.2⟩
  · intro other kept
    have inside := owned.kept other kept.1
    refine ⟨inside.1, by rw [nblocks]; exact inside.2.1, ?_, by rw [objlist]; exact inside.2.2.2⟩
    rw [free]
    split
    · rename_i writable
      intro member
      rcases List.mem_append.mp member with old | new
      · exact inside.2.2.1 old
      · exact kept.2 ⟨writable, List.mem_singleton.mp new⟩
    · exact inside.2.2.1
  · intro other usable
    rw [states other usable.1 usable.2]
    exact owned.unfreed other (owned.live_usable other usable.1)
  · intro other usable
    rw [states other usable.1 usable.2, ← owned.state other (owned.live_usable other usable.1)]
    exact ⟨fun writable => writable.1, fun writable => ⟨writable, usable.2⟩⟩
  · intro other alive used notNew
    rw [states other alive.1 alive.2] at used notNew ⊢
    obtain ⟨kept, dead⟩ := owned.source other alive.1 used notNew
    refine ⟨⟨kept, ?_⟩, fun again => dead again.1⟩
    rintro ⟨_, same⟩
    exact dead (same ▸ live)
  · rw [nblocks, free]
    simp only [Ownership.freed]
    split
    · rw [List.length_append, List.length_singleton]
      exact owned.room
    · exact owned.room

/-- There is room to give a block back. -/
theorem EdbValid.push_room (valid : EdbValid fixed own db l) (kept : own.kept block) :
    l.free.length < 1021 := by
  have inside := valid.owned.kept block kept
  have bounded := rootFits_le valid.working.bounded valid.owned.room
  have distinct : (block :: l.free).Nodup :=
    List.nodup_cons.mpr ⟨inside.2.2.1, valid.working.distinct⟩
  have within : (block :: l.free).toFinset ⊆ Finset.Ico 4 l.nblocks := by
    intro other member
    rw [Finset.mem_Ico]
    rcases List.mem_cons.mp (List.mem_toFinset.mp member) with rfl | free
    · exact ⟨inside.1, inside.2.1⟩
    · exact ⟨(valid.working.free other free).1, (valid.working.free other free).2.1⟩
  have counted := Finset.card_le_card within
  rw [List.toFinset_card_of_nodup distinct, Nat.card_Ico, List.length_cons] at counted
  omega

/-- `edb_free_block` of a live block. -/
theorem EdbValid.free_run (valid : EdbValid fixed own db l) (live : own.live block) (depth : Nat) :
    ∃ after l', (edbApi (depth + 2)).free block db = .ok () after ∧
      EdbValid fixed (own.freed block) after l' ∧
      ∀ other, own.kept other → after.data other = db.data other := by
  have owned := valid.owned
  have working := valid.working
  have usable := owned.live_usable block live
  have kept := owned.usable_kept block usable
  have inside := owned.kept block kept
  have bounded := working.bounded
  have state := owned.state block usable
  have notRoot : l.objlist ≠ 2 := working.objlist.1
  have apart : ∀ other, own.kept other → other ≠ 2 := fun other held => by
    have := (owned.kept other held).1
    omega
  have start : (edbApi (depth + 2)).free block db = _ :=
    (Code.bind_ok (requireTxn_run valid.tracks.txn)).trans
      (Code.bind_ok (valid.tracks.txnGet_run working.wf block))
  rw [start]
  by_cases new : l.table.get block = allocated
  · -- allocated in this transaction
    have writable : own.writable block := state.mpr (by rw [new]; decide)
    obtain ⟨table, effect⟩ := working.wf.set_effect (k := block) (by omega) working.few 0
    obtain ⟨middle, set, tracked, data, handles⟩ := valid.tracks.txnSet_run effect.ran
    have still := working.set effect inside.1 inside.2.1 inside.2.2.1
    obtain ⟨after, pushed, final, later, same⟩ :=
      tracked.freelistFree_run effect.wf still.root notRoot depth block
      inside.1 (by omega) (valid.push_room kept)
    refine ⟨after, _, ?_, valid.released live final (still.giveBack inside.1 inside.2.1 inside.2.2.1
      (by rw [effect.get, if_pos rfl]) inside.2.2.2) (handles.trans later) rfl rfl rfl ?_ ?_, ?_⟩
    · rw [if_pos new, Code.bind_ok set]
      exact Code.ignore_ok pushed
    · intro other _ different
      exact (effect.get other).trans (if_neg different)
    · rw [if_pos writable]
      rfl
    · intro other held
      rw [same other (apart other held), data]
  · rw [if_neg new, if_neg (owned.unfreed block usable)]
    by_cases old : l.table.get block = 0
    · -- an older block
      have committed : ¬own.writable block := fun writable => state.mp writable old
      obtain ⟨table, effect⟩ := working.wf.set_effect (k := block) (by omega) working.few freed
      obtain ⟨after, set, tracked, data, handles⟩ := valid.tracks.txnSet_run effect.ran
      refine ⟨after, _, ?_, valid.released live tracked
        (working.set effect inside.1 inside.2.1 inside.2.2.1) handles rfl rfl rfl ?_ ?_, ?_⟩
      · rw [if_neg (by simp [old])]
        exact set
      · intro other _ different
        exact (effect.get other).trans (if_neg different)
      · rw [if_neg committed]
      · intro other _
        rw [data]
    · -- a copy: its source is freed too
      have writable : own.writable block := state.mpr old
      obtain ⟨sourceKept, sourceDead⟩ := owned.source block live old new
      have source := owned.kept _ sourceKept
      obtain ⟨table, effect⟩ := working.wf.set_effect (k := block) (by omega) working.few 0
      obtain ⟨one, setOne, trackedOne, dataOne, handlesOne⟩ := valid.tracks.txnSet_run effect.ran
      have first := working.set effect inside.1 inside.2.1 inside.2.2.1
      obtain ⟨last, second⟩ :=
        first.wf.set_effect (k := l.table.get block) (by omega) first.few freed
      obtain ⟨two, setTwo, trackedTwo, dataTwo, handlesTwo⟩ := trackedOne.txnSet_run second.ran
      have still := first.set second source.1 source.2.1 source.2.2.1
      have different : block ≠ l.table.get block := fun same => sourceDead (same ▸ live)
      have cleared : last.get block = 0 := by
        rw [second.get, if_neg different, effect.get, if_pos rfl]
      obtain ⟨after, pushed, final, later, same⟩ :=
        trackedTwo.freelistFree_run second.wf still.root notRoot depth
        block inside.1 (by omega) (valid.push_room kept)
      refine ⟨after, _, ?_,
        valid.released live final (still.giveBack inside.1 inside.2.1 inside.2.2.1 cleared
        inside.2.2.2) ((handlesOne.trans handlesTwo).trans later) rfl rfl rfl ?_ ?_, ?_⟩
      · rw [if_pos old, Code.bind_ok setOne, Code.bind_ok setTwo]
        exact Code.ignore_ok pushed
      · intro other alive notBlock
        have notSource : other ≠ l.table.get block := fun same => sourceDead (same ▸ alive)
        change last.get other = _
        rw [second.get, if_neg notSource, effect.get, if_neg notBlock]
      · rw [if_pos writable]
        rfl
      · intro other held
        rw [same other (apart other held), dataTwo, dataOne]

theorem EdbValid.wf (valid : EdbValid fixed own db l) : own.Wf := by
  have bounded := valid.working.bounded
  refine ⟨valid.owned.writable_live, valid.owned.live_usable, valid.owned.usable_kept, ?_, ?_⟩
  · intro block kept
    have inside := valid.owned.kept block kept
    omega
  · intro block kept
    have inside := valid.owned.kept block kept
    omega

/-- `edb_allocate_block`. -/
theorem EdbValid.allocate_run (valid : EdbValid fixed own db l)
    (positive : 0 < own.room) (depth : Nat) :
    ∃ block after, (edbApi (depth + 2)).allocate db = .ok block after ∧ ¬own.kept block ∧
      (∃ l', EdbValid fixed (own.taken block) after l') ∧ ∀ other, own.kept other →
      after.data other = db.data other := by
  obtain ⟨room, spent⟩ := Nat.exists_eq_add_of_lt positive
  have fits := valid.owned.room
  rw [spent, Nat.zero_add] at fits
  obtain ⟨one, rest⟩ := rootFits_take valid.working fits
  have taken := Ledger.take_spec valid.working.bounded one
  obtain ⟨after, ran, tracked, handles, same⟩ := valid.tracks.allocate_run valid.working depth one
  obtain ⟨table, effect, changed⟩ := valid.working.taken_effect taken allocated
  rw [Ledger.allocate, changed] at tracked
  refine ⟨l.take.1, after, ran, valid.fresh taken,
    ⟨_, valid.taken taken effect tracked handles (fun _ => Iff.rfl)
    (fun _ => Iff.rfl) (fun _ live => live) (fun _ => Iff.rfl) ⟨?_, ?_⟩ ⟨by decide, by decide⟩
    (fun other => absurd rfl other) ?_⟩, ?_⟩
  · rintro other (writable | same)
    · exact .inl (valid.owned.writable_live other writable)
    · exact .inr same
  · rintro other (live | same)
    · exact .inl (valid.owned.live_usable other live)
    · exact .inr same
  · simp only [Ownership.taken]
    rw [spent]
    simpa using rest
  · intro other kept
    have inside := valid.owned.kept other kept
    exact same other (by omega) inside.2.1

/-- `edb_modify_block` of a block that older transactions own. -/
theorem EdbValid.copy_run (valid : EdbValid fixed own db l) (usable : own.usable block)
    (committed : ¬own.writable block) (positive : 0 < own.room) (depth : Nat) :
    ∃ copy after, (edbApi (depth + 2)).modify block db = .ok copy after ∧ ¬own.kept copy ∧
      (∃ l', EdbValid fixed (own.copied block copy) after l') ∧ after.data copy = db.data block ∧
      ∀ other, own.kept other → after.data other = db.data other := by
  obtain ⟨room, spent⟩ := Nat.exists_eq_add_of_lt positive
  have fits := valid.owned.room
  rw [spent, Nat.zero_add] at fits
  obtain ⟨one, rest⟩ := rootFits_take valid.working fits
  have taken := Ledger.take_spec valid.working.bounded one
  have kept := valid.owned.usable_kept block usable
  have inside := valid.owned.kept block kept
  have bounded := valid.working.bounded
  have old : l.table.get block = 0 := by
    by_contra used
    exact committed ((valid.owned.state block usable).mpr used)
  obtain ⟨after, ran, tracked, handles, copied, same⟩ :=
    valid.tracks.modify_run_copy valid.working depth old inside.2.1 (by omega) one
  obtain ⟨table, effect, changed⟩ := valid.working.taken_effect taken block
  rw [changed] at tracked
  have apart : ∀ other, own.kept other → other ≠ l.take.1 := fun other held again =>
    valid.fresh taken (again ▸ held)
  refine ⟨l.take.1, after, ran, valid.fresh taken,
    ⟨_, valid.taken taken effect tracked handles (fun _ => Iff.rfl)
    (fun _ => Iff.rfl) ?_ (fun _ => Iff.rfl) ⟨?_, ?_⟩ ⟨by omega, by simp only [freed]; omega⟩ ?_
      ?_⟩, copied, ?_⟩
  · rintro other (live | new)
    · exact .inl live.1
    · exact .inr new
  · rintro other (writable | new)
    · refine .inl ⟨valid.owned.writable_live other writable, ?_⟩
      rintro rfl
      exact committed writable
    · exact .inr new
  · rintro other (live | new)
    · exact .inl (valid.owned.live_usable other live.1)
    · exact .inr new
  · intro _
    refine ⟨kept, ?_⟩
    rintro (live | new)
    · exact live.2 rfl
    · exact apart block kept new
  · simp only [Ownership.copied]
    rw [spent]
    simpa using rest
  · intro other held
    have there := valid.owned.kept other held
    exact same other (by omega) (apart other held) there.2.1

/-- The block functions of an open transaction keep the contract. -/
def edbContract (fixed : Fixed) (depth : Nat) : BlockContract (edbApi (depth + 2)) where
  Valid own db := ∃ l, EdbValid fixed own db l
  wf := by
    rintro own db ⟨l, valid⟩
    exact valid.wf
  write := by
    rintro own db block ⟨l, valid⟩ live image
    have inside :=
      valid.owned.kept block (valid.owned.usable_kept block (valid.owned.live_usable block live))
    exact ⟨l, valid.tracks.write inside.1 inside.2.2.2 image, valid.working,
      valid.owned, valid.objects, valid.objlist, valid.handles, valid.txnId⟩
  allocate := by
    rintro own db ⟨l, valid⟩ positive
    exact valid.allocate_run positive depth
  modify_writable := by
    rintro own db block ⟨l, valid⟩ writable
    have usable := valid.owned.live_usable block (valid.owned.writable_live block writable)
    exact valid.tracks.modify_run_same valid.working.wf (depth + 1)
      ((valid.owned.state block usable).mp writable) (valid.owned.unfreed block usable)
  modify_copy := by
    rintro own db block ⟨l, valid⟩ usable committed positive
    exact valid.copy_run usable committed positive depth
  free := by
    rintro own db block ⟨l, valid⟩ live
    obtain ⟨after, l', ran, later, same⟩ := valid.free_run live depth
    exact ⟨after, ran, ⟨l', later⟩, same⟩

end EverDb
