import EverDb.Txn.Tracks

/-!
# What copy on write leaves alone

`Progress` relates two databases of one transaction: the second tracks its own
bookkeeping, and every block in use keeps its bytes and its state. Making a block
writable is one step of it.
-/

namespace EverDb

open Foundation

/-- The second database has the blocks in use of the first, after at most `spent`
blocks were taken. -/
structure Progress (base : Books) (spent : Nat) (db : EdbDb) (l : Ledger)
    (after : EdbDb) (l' : Ledger) : Prop where
  tracks : Tracks after base l'
  working : l'.Working base
  handles : db.SameHandles after
  objects : l'.objects = l.objects
  objlist : l'.objlist = l.objlist
  used : ∀ block, l.Used block → l'.Used block
  state : ∀ block, l.Used block → l'.table.get block = l.table.get block
  data : ∀ block, l.Used block → after.data block = db.data block
  room : ∀ count, takesFit (count + spent) l.free.length l.nblocks →
    takesFit count l'.free.length l'.nblocks

variable {base : Books} {l : Ledger} {db : EdbDb} {block : Nat}

namespace Progress

theorem refl (tracks : Tracks db base l) (working : l.Working base) (spent : Nat) :
    Progress base spent db l db l := by
  refine ⟨tracks, working, Db.SameHandles.refl db, rfl, rfl, fun _ used => used, fun _ _ => rfl,
    fun _ _ => rfl, ?_⟩
  intro count fits
  induction spent with
  | zero => exact fits
  | succ spent ih => exact ih (takesFit_less fits)

theorem trans {first second : Nat} {middle after : EdbDb} {mid last : Ledger}
    (start : Progress base first db l middle mid)
    (rest : Progress base second middle mid after last) :
    Progress base (first + second) db l after last := by
  refine ⟨rest.tracks, rest.working, start.handles.trans rest.handles,
    rest.objects.trans start.objects,
    rest.objlist.trans start.objlist, fun block used =>
      rest.used block (start.used block used), ?_, ?_, ?_⟩
  · intro block used
    rw [rest.state block (start.used block used), start.state block used]
  · intro block used
    rw [rest.data block (start.used block used), start.data block used]
  · intro count fits
    exact rest.room count
      (start.room (count + second) (by rwa [Nat.add_assoc, Nat.add_comm second]))

end Progress

/-- A block that may be written in place. -/
structure Ledger.Writable (l : Ledger) (block : Nat) : Prop extends l.Used block where
  owned : l.table.get block ≠ 0

/-- What `edb_modify_block` answers: a writable block with the bytes of the old one. -/
structure MadeWritable (base : Books) (db : EdbDb) (l : Ledger) (block : Nat) (depth new : Nat)
    (after : EdbDb) (l' : Ledger) : Prop where
  ran : (edbApi (depth + 2)).modify block db = .ok new after
  progress : Progress base 1 db l after l'
  writable : l'.Writable new
  copied : after.data new = db.data block

/-- A writable block stays where it is. -/
theorem Tracks.modify_writable (tracks : Tracks db base l) (working : l.Working base) (depth : Nat)
    (writable : l.Writable block) : (edbApi (depth + 2)).modify block db = .ok block db :=
  tracks.modify_run_same working.wf (depth + 1) writable.owned writable.kept

/-- `edb_modify_block` of a block in use. -/
theorem Tracks.modify_used (tracks : Tracks db base l) (working : l.Working base) (depth : Nat)
    (used : l.Used block) (fits : takesFit 1 l.free.length l.nblocks) :
    ∃ new after l', MadeWritable base db l block depth new after l' := by
  by_cases old : l.table.get block = 0
  · have taken := Ledger.take_spec working.bounded fits
    have range := working.taken_range taken
    obtain ⟨after, ran, tracked, handles, copied, kept⟩ :=
      tracks.modify_run_copy working depth old used.inside (by have := used.user; omega) fits
    obtain ⟨table, effect, changed⟩ := working.taken_effect taken block
    rw [changed] at tracked
    obtain ⟨still, states⟩ := working.copied taken effect
    refine ⟨l.take.1, after, _, ran, ⟨tracked, still, handles, taken.objects, taken.objlist,
      fun other inUse => (states other inUse).1, fun other inUse => (states other inUse).2, ?_,
        ?_⟩, ?_, copied⟩
    · intro other inUse
      exact kept other (by have := inUse.user; omega) (inUse.apart_of_taken taken) inUse.inside
    · intro count room
      exact (Ledger.takesFit_take room).2
    · have state : table.get l.take.1 = block := by rw [effect.get, if_pos rfl]
      refine ⟨⟨range.1, range.2.1, range.2.2.1, ?_⟩, ?_⟩
      · change table.get l.take.1 ≠ freed
        have inside := used.inside
        have bounded := working.bounded
        simp only [freed]
        omega
      · change table.get l.take.1 ≠ 0
        rw [state]
        have user := used.user
        omega
  · have writable : l.Writable block := ⟨used, old⟩
    exact ⟨block, db, l, tracks.modify_writable working depth writable,
      .refl tracks working 1, writable, rfl⟩

end EverDb
