import EverDb.Txn.Sound

/-!
# A transaction inside a transaction

`Recorded` is what a disciplined client makes of the books: it allocates blocks, and it
modifies and frees the ones it holds. A nested transaction starts with the lists and the
blocks that its parent has reached, and with a block table of its own.
-/

namespace EverDb

open Foundation

/-- The client and the books after allocations, modifications and frees since begin. -/
inductive Recorded (base : Books) (saved : List Nat) : Client → Ledger → Prop
  | begun : Recorded base saved ⟨saved, [], saved, []⟩ base.begun
  | allocate {c : Client} {l : Ledger} : Recorded base saved c l →
      takesFit 1 l.free.length l.nblocks →
      Recorded base saved (c.took l.allocate.1) l.allocate.2
  | modify {c : Client} {l : Ledger} {block : Nat} : Recorded base saved c l → block ∈ c.held →
      (l.table.get block = 0 → takesFit 1 l.free.length l.nblocks) →
      Recorded base saved (c.moved block (l.modify block).1) (l.modify block).2
  | free {c : Client} {l : Ledger} {block : Nat} : Recorded base saved c l → block ∈ c.held →
      Recorded base saved (c.gave block) (l.freeBlock block)

variable {others saved : List Nat} {base : Books} {c : Client} {l : Ledger} {t after : MemHash}
  {k v block : Nat}

/-- A binding of the table is the state of its key. -/
theorem MemHash.Wf.get_of_mem (wf : t.Wf) (member : (k, v) ∈ t.items) : t.get k = v := by
  rw [MemHash.get, (Assoc.lookup_eq_some wf.keys_nodup).mpr member]
  rfl

/-- A key bound to zero after a set is the one that was set or an old one. -/
theorem TableSet.zero_key (effect : TableSet t after k v) (wf : t.Wf)
    (member : (block, 0) ∈ after.items) :
    block = k ∧ v = 0 ∨ block ≠ k ∧ (block, 0) ∈ t.items := by
  have read := effect.get block
  rw [effect.wf.get_of_mem member] at read
  by_cases same : block = k
  · rw [if_pos same] at read
    exact .inl ⟨same, read.symm⟩
  · rw [if_neg same] at read
    refine .inr ⟨same, ?_⟩
    rcases effect.keys _ member with here | ⟨⟨old, value⟩, there, rfl⟩
    · exact absurd here same
    · rw [wf.get_of_mem there] at read
      exact read ▸ there

/-- What holds of the keys of a table and of the key that is set. -/
theorem TableSet.keys_all (effect : TableSet t after k v) (Good : Nat → Prop) (good : Good k)
    (keys : ∀ entry ∈ t.items, Good entry.1) : ∀ entry ∈ after.items, Good entry.1 := by
  intro entry member
  rcases effect.keys entry member with same | ⟨old, there, same⟩
  · exact same ▸ good
  · exact same ▸ keys old there

/-- What is known of recorded books beside the invariant of every transaction. -/
structure Ledger.Plain (saved : List Nat) (base : Books) (c : Client) (l : Ledger) : Prop where
  objlist : l.objlist = edbObjlist
  objects : l.objects = base.objects
  started : c.saved = saved
  retired : ∀ block ∈ c.retired, block ∈ saved
  /-- A key with the value zero is a block that was given back. -/
  zero : ∀ block, (block, 0) ∈ l.table.items → block ∈ l.free

/-- Retiring a block retires only blocks live at begin. -/
theorem Client.retire_saved (kept : ∀ other ∈ c.retired, other ∈ c.saved) {other : Nat}
    (member : other ∈ c.retire block) : other ∈ c.saved := by
  unfold Client.retire at member
  split at member
  · rcases List.mem_cons.mp member with same | old
    · rwa [same]
    · exact kept other old
  · exact kept other member

/-- A taken block that gets a state. -/
theorem Ledger.Plain.take_set (plain : l.Plain saved base c)
    (sound : l.Sound others base c) (state : Nat)
    (used : state ≠ 0) (fits : takesFit 1 l.free.length l.nblocks) {c' : Client}
    (same : c'.saved = c.saved) (retired : ∀ other ∈ c'.retired, other ∈ c.saved) :
    (l.take.2.set l.take.1 state).Plain saved base c' := by
  have taken := Ledger.take_spec sound.bounded fits
  obtain ⟨table, effect, changed⟩ := sound.taken_effect taken state
  rw [changed]
  refine ⟨taken.objlist.trans plain.objlist, taken.objects.trans plain.objects,
    same.trans plain.started,
    fun other member => plain.started ▸ retired other member, fun other member => ?_⟩
  rcases effect.zero_key sound.table.wf member with ⟨_, zero⟩ | ⟨apart, old⟩
  · exact absurd zero used
  · have free := plain.zero other old
    have counted := taken.counted other
    rw [if_neg apart] at counted
    have positive := List.one_le_count_iff.mpr free
    have there : 1 ≤ l.take.2.free.count other := by omega
    exact List.one_le_count_iff.mp there

theorem Ledger.Plain.freeBlock (plain : l.Plain saved base c) (sound : l.Sound others base c)
    (held : block ∈ c.held) : (l.freeBlock block).Plain saved base (c.gave block) := by
  have retired : ∀ other ∈ (c.gave block).retired, other ∈ saved := by
    have kept : ∀ other ∈ c.retired, other ∈ c.saved :=
      fun other member => plain.started ▸ plain.retired other member
    exact fun other member => plain.started ▸ Client.retire_saved kept member
  obtain ⟨result, _⟩ := sound.freeBlock held
  cases result with
  | marked state effect eq =>
      rw [eq]
      refine ⟨plain.objlist, plain.objects, plain.started, retired, fun other member => ?_⟩
      rcases effect.zero_key sound.table.wf member with ⟨_, zero⟩ | ⟨_, old⟩
      · exact absurd zero (by decide)
      · exact plain.zero other old
  | dropped state effect eq =>
      rw [eq]
      refine ⟨plain.objlist, plain.objects, plain.started, retired, fun other member =>
        List.mem_append.mpr ?_⟩
      rcases effect.zero_key sound.table.wf member with ⟨same, _⟩ | ⟨_, old⟩
      · exact .inr (List.mem_singleton.mpr same)
      · exact .inl (plain.zero other old)
  | undone user inside first second eq =>
      rw [eq]
      refine ⟨plain.objlist, plain.objects, plain.started, retired, fun other member =>
        List.mem_append.mpr ?_⟩
      rcases second.zero_key first.wf member with ⟨_, zero⟩ | ⟨_, middle⟩
      · exact absurd zero (by decide)
      · rcases first.zero_key sound.table.wf middle with ⟨same, _⟩ | ⟨_, old⟩
        · exact .inr (List.mem_singleton.mpr same)
        · exact .inl (plain.zero other old)

theorem Books.begun_plain (sound : base.Sound others saved) :
    base.begun.Plain saved base ⟨saved, [], saved, []⟩ := by
  have none : memHashNew.items = [] := empty_items 0
  obtain ⟨⟨table, effect, begun⟩, _⟩ := Books.Sound.begun (c := ⟨saved, [], saved, []⟩) sound
  rw [begun]
  refine ⟨rfl, rfl, rfl, fun _ member => absurd member List.not_mem_nil, fun block member => ?_⟩
  rcases effect.zero_key (empty_wf 0 (.inl rfl)) member with ⟨_, zero⟩ | ⟨_, old⟩
  · exact absurd zero (by decide)
  · rw [none] at old
    cases old

/-- A disciplined client keeps the books in order. -/
theorem Recorded.spec (recorded : Recorded base saved c l) (started : base.Sound others saved) :
    l.Sound others base c ∧ l.Plain saved base c := by
  induction recorded with
  | begun =>
      exact ⟨(Books.Sound.begun (c := ⟨saved, [], saved, []⟩) started).2, base.begun_plain started⟩
  | @allocate c l _ fits ih =>
      obtain ⟨sound, plain⟩ := ih
      have kept : ∀ other ∈ c.retired, other ∈ c.saved :=
        fun other member => plain.started ▸ plain.retired other member
      exact ⟨sound.allocate fits, plain.take_set sound allocated (by decide) fits rfl kept⟩
  | @modify c l block _ held fits ih =>
      obtain ⟨sound, plain⟩ := ih
      refine ⟨sound.modify held fits, ?_⟩
      unfold Ledger.modify
      by_cases fresh : l.table.get block = 0
      · rw [if_pos fresh]
        have kept : ∀ other ∈ c.retired, other ∈ c.saved := fun other member =>
          plain.started ▸ plain.retired other member
        have user := sound.range block (by simp [held])
        refine plain.take_set sound block (by omega) (fits fresh) ?_ ?_
        · unfold Client.moved
          split <;> rfl
        · intro other member
          unfold Client.moved at member
          split at member
          · exact kept other member
          · exact Client.retire_saved kept member
      · rw [if_neg fresh]
        simpa [Client.moved] using plain
  | free _ held ih =>
      obtain ⟨sound, plain⟩ := ih
      exact ⟨(sound.freeBlock held).2, plain.freeBlock sound held⟩

/-- A nested transaction begins with the lists of its parent; nobody but the parent
knows the blocks that it has retired. -/
theorem Ledger.Sound.nested (sound : l.Sound others base c) (plain : l.Plain saved base c) :
    l.toBooks.Sound (c.retired ++ others) c.held := by
  have none : l.workingCopy = [] := by simp [Ledger.workingCopy, plain.objlist]
  refine ⟨Nat.le_trans sound.begun.user sound.grown, sound.bounded, fun block => ?_⟩
  have counted := sound.partition block
  rw [none] at counted
  simp only [List.count_append, List.count_nil] at counted ⊢
  omega

end EverDb
