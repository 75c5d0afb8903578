import EverDb.Txn.Outgrown

/-!
# What commit releases

The loop of `txn_commit_master` walks the block table while its pushes may change that
table. `HandledOnce` says what the walk should do. It does so when no push finds the
root of the freelist full, since only such a push takes a page and sets a key.
-/

namespace EverDb

open Foundation

variable {others : List Nat} {base : Books} {c : Client} {l : Ledger} {db state : EdbDb} {i : Nat}

/-- What commit should pass to `freelist_free_block`: an entry of the table for each
block it releases, in slot order. -/
def Ledger.pushes (l : Ledger) : List Nat := l.table.items.filterMap l.pushedFor

/-- A database in a transaction of its own, with the table of the ledger. The freelist
may have any form. -/
structure InMaster (db : EdbDb) (l : Ledger) : Prop where
  protWrite : db.ctl.protWrite = true
  freelist : db.ctl.freelist = edbFreelistSecondary
  objlist : db.ctl.objlist = l.objlist
  txn : ∃ begun, db.ctl.txn = [⟨begun, l.table⟩]

/-- A transaction whose lists lie in their roots is one. -/
theorem Tracks.inMaster (tracks : Tracks db base l) : InMaster db l :=
  ⟨tracks.serves.protWrite, tracks.freelist, tracks.objlist, _, tracks.txn⟩

/-- Commit has handled every entry of the table once. -/
structure HandledOnce (db after : EdbDb) (l : Ledger) : Prop where
  /-- A freelist in its root has what the table releases pushed on it. -/
  pushed : ∀ words, Stack (db.data edbFreelistSecondary) words →
    Stack (after.data edbFreelistPrimary) (words ++ l.pushes)
  /-- A table that releases nothing leaves the freelist as it was, whatever its form. -/
  unpushed : l.pushes = [] → after.data edbFreelistPrimary = db.data edbFreelistSecondary
  /-- A block marked `FREED` is released once. -/
  gone : ∀ key, l.table.get key = freed → l.pushes.count key = 1
  /-- So is a block that a copy supersedes. -/
  copied : ∀ key, edbUserData ≤ l.table.get key → l.table.get key ≠ allocated →
    l.table.get key ≠ freed →
    l.pushes.count (l.table.get key) = 1

/-- Every used slot that is not the root of the freelist pushes its block, unless the
state is `ALLOCATED` or a reserved block. -/
theorem Ledger.pushedFor_none {l : Ledger} {entry : Nat × Nat} (silent : l.pushedFor entry = none) :
    entry.1 = edbFreelistSecondary ∨
      entry.1 ≠ l.objlist ∧ entry.2 ≠ freed ∧ (entry.2 = allocated ∨ entry.2 < edbUserData) := by
  unfold Ledger.pushedFor released at silent
  split at silent
  · exact .inl ‹_›
  split at silent
  · cases silent
  split at silent
  · cases silent
  split at silent
  · exact .inr ⟨‹_›, ‹_›, ‹_›⟩
  · cases silent

/-! ## A table that releases nothing -/

/-- A slot that releases nothing leaves the database alone. -/
theorem commitSlot_silent (master : InMaster db l) (table : TableSound l.table l.nblocks l.objlist)
    (silent : l.pushes = []) (inside : i < l.table.capacity) (api : BlockApi EdbDb) :
    commitSlot api (l.table.entries i) db = .ok () db := by
  unfold commitSlot
  rw [Code.gets_bind]
  by_cases empty : (l.table.entries i).k = 0
  · rw [if_pos empty]
    rfl
  rw [if_neg empty]
  have listed := slot_member inside empty
  have none : l.pushedFor ((l.table.entries i).k, (l.table.entries i).v) = none :=
    List.filterMap_eq_nil_iff.mp silent _ listed
  by_cases root : (l.table.entries i).k = edbFreelistSecondary
  · rw [if_pos root]
    rfl
  obtain ⟨other, kept, quiet⟩ := (Ledger.pushedFor_none none).resolve_left root
  rw [if_neg root, master.objlist, if_neg other]
  by_cases new : (l.table.entries i).v = allocated
  · rw [if_pos new]
    rfl
  rw [if_neg new, if_neg kept]
  have low := quiet.resolve_left new
  have value := slot_value table.wf inside empty
  have reserved := table.reserved (l.table.entries i).k
  rw [value] at reserved
  have zero : (l.table.entries i).v = 0 := by
    by_contra used
    rcases reserved (Nat.pos_of_ne_zero used) low with place | place
    · exact root place
    · exact other place
  -- the refusal of block zero has the return code of success
  rw [zero]
  rfl

/-- A table that releases nothing is committed over any freelist. -/
theorem commit_silent (master : InMaster db l) (table : TableSound l.table l.nblocks l.objlist)
    (silent : l.pushes = []) (api : BlockApi EdbDb) :
    ∃ after, txnCommitMaster api db = .ok () after ∧
      after.data edbFreelistPrimary = db.data edbFreelistSecondary := by
  obtain ⟨begun, txn⟩ := master.txn
  have blocks : currentBlocks db = l.table := currentBlocks_eq txn
  have read : txnGet edbFreelistSecondary db = .ok edbFreelistPrimary db :=
    txnGet_of_get txn ((table.wf.get_spec _).trans (congrArg some table.root))
  obtain ⟨state, looped, rfl⟩ := Code.forLoop_up
    (fun i (db : EdbDb) => i < (currentBlocks db).capacity)
    (fun i => do
      let e ← .gets fun db => (currentBlocks db).entries i
      commitSlot api e)
    (fun _ state => state = db) 0 l.table.capacity 4294967296 db
    (by
      rintro i _ _ below rfl
      refine ⟨decide_eq_true (by rw [blocks]; exact below), _, ?_, rfl⟩
      rw [Code.gets_bind, blocks]
      exact commitSlot_silent master table silent below api)
    (by
      rintro _ rfl
      exact decide_eq_false (by rw [blocks]; exact Nat.lt_irrefl _))
    (Nat.zero_le _)
    (by
      rcases table.wf.sized with h | ⟨_, h⟩ <;> omega)
    rfl
  let closed : EdbDb :=
    (state.write edbFreelistPrimary (state.data edbFreelistSecondary)).withCtl fun ctl =>
    { ctl with freelist := edbFreelistPrimary, txn := [], txnId := u32 (ctl.txnId + 1) }
  refine ⟨closed, ?_, Db.write_data_self state edbFreelistPrimary _⟩
  unfold txnCommitMaster
  rw [Code.bind_ok (requireTxn_run txn), Code.gets_bind, txn, if_neg (by simp), Code.bind_ok read,
    if_neg (by decide), Code.bind_ok looped, Code.gets_bind, master.freelist,
    Code.bind_ok (copyMapped_run master.protWrite edbFreelistPrimary edbFreelistSecondary),
      setCtl_run]

/-- A table with a block marked `FREED`, or with a copy, releases something. -/
theorem Ledger.pushes_ne_nil {key : Nat} (table : TableSound l.table l.nblocks l.objlist)
    (released : l.table.get key = freed ∨ edbUserData ≤ l.table.get key ∧
      l.table.get key ≠ allocated) :
    l.pushes ≠ [] := by
  intro silent
  simp only [freed, edbUserData] at released
  have used : l.table.get key ≠ 0 := by omega
  have none := List.filterMap_eq_nil_iff.mp silent _ (MemHash.key_of_get table.wf used)
  rcases Ledger.pushedFor_none none with root | ⟨_, kept, quiet⟩
  · have marked := table.root
    simp only [edbFreelistSecondary] at root
    rw [← root] at marked
    omega
  · simp only [edbUserData, freed] at quiet kept
    omega

/-! ## Every table -/

/-- A block that the client has given up is released once. -/
theorem Ledger.Sound.retired_once (sound : l.Sound others base c) {retired : Nat}
    (member : retired ∈ c.retired) :
    l.pushes.count retired = 1 := by
  have pushed := List.perm_iff_count.mp sound.pushed_perm retired
  have counted := sound.partition retired
  have inside := sound.range retired (by simp [member])
  have positive := List.one_le_count_iff.mpr member
  rw [if_pos inside] at counted
  simp only [List.count_append] at counted pushed
  unfold Ledger.pushes
  omega

/-- When no push finds the root of the freelist full, commit handles every entry of the
table once: either nothing is released, over any freelist, or the freelist lies in its
root and has room for all that is. -/
theorem commit_handles_once (master : InMaster db l)
    (table : TableSound l.table l.nblocks l.objlist) (depth : Nat)
    (quiet : l.pushes = [] ∨ l.free.length + l.pushes.length ≤ 1021 ∧
      ∃ others base c, Tracks db base l ∧ l.Sound others base c) :
    ∃ after, txnCommitMaster (edbApi (depth + 1)) db = .ok () after ∧ HandledOnce db after l := by
  by_cases silent : l.pushes = []
  · obtain ⟨after, ran, same⟩ := commit_silent master table silent (edbApi (depth + 1))
    refine ⟨after, ran, ?_, fun _ => same, ?_, ?_⟩
    · intro words stack
      rw [silent, List.append_nil, same]
      exact stack
    · intro key gone
      exact absurd silent (Ledger.pushes_ne_nil table (.inl gone))
    · intro key user new _
      exact absurd silent (Ledger.pushes_ne_nil table (.inr ⟨user, new⟩))
  · obtain ⟨room, others, base, c, tracks, sound⟩ := quiet.resolve_left silent
    obtain ⟨after, ran, settled, _⟩ := tracks.commit_run sound depth room
    have loop : edbTxnCommit (depth + 1) db = txnCommitMaster (edbApi (depth + 1)) db := by
      unfold edbTxnCommit
      rw [Code.bind_ok (requireWritable_run tracks.serves)]
      unfold txnCommit
      rw [Code.bind_ok (requireTxn_run tracks.txn), Code.gets_bind, tracks.txn,
        if_pos List.length_singleton]
    refine ⟨after, loop.symm.trans ran, ?_, fun none => absurd none silent, ?_, ?_⟩
    · intro words stack
      -- the words in the root are those of the ledger
      rw [← stack.words, tracks.free.words]
      exact settled.free
    · intro key gone
      exact sound.retired_once (sound.freed_retired gone)
    · intro key user new kept
      have inside := ((table.states key).resolve_left new).resolve_left kept
      exact sound.retired_once (sound.source_retired key user inside)

/-- A transaction in which the client has freed block 4 and copied block 5. -/
def releasing : List Op := [.begin, .allocate, .allocate, .commit, .begin, .free 4, .modify 5]

/-- Its books, from those of a new file. -/
def releasingBooks : Ledger :=
  (((Books.begun ⟨4, [], []⟩).allocate.2.allocate.2.commit.begun.freeBlock 4).modify 5).2

/-- Commit releases a block marked `FREED` and one behind a copy, each once; and it
goes through over a freelist of 1022 entries, in pages, when it has nothing to release. -/
theorem commit_handles_once_both :
    (∃ db answers s after, edbOpenNew (newFile grantingOs) = .ok () db ∧
      Run 2 (Session.start db []) releasing answers s ∧ releasingBooks.pushes = [4, 5] ∧
      txnCommitMaster (edbApi 1) s.db = .ok () after ∧ HandledOnce s.db after releasingBooks) ∧
    ∃ db after l, freeAndBegin fullFile = .ok () db ∧ arrayLength db 2 = 1022 ∧ ptNblocks db 2 = 1 ∧
      txnCommitMaster (edbApi 1) db = .ok () after ∧ HandledOnce db after l := by
  constructor
  · obtain ⟨db, opened, _⟩ := edbOpenNew_run grantingOs_succeeds
    have allowed : (Bank.closed ⟨4, [], []⟩).Allows ⟨[], [], [], []⟩ releasing := by decide +kernel
    have start := newSession_keeps grantingOs_succeeds opened
    obtain ⟨s, run⟩ := start.run 0 allowed
    have kept := (run.keeps start).2.2
    have books : ∃ base, releasing.foldl Bank.next (.closed ⟨4, [], []⟩) =
        .opened base releasingBooks := ⟨_, rfl⟩
    obtain ⟨_, books⟩ := books
    rw [books] at kept
    cases kept with
    | opened tracks sound =>
        have pushes : releasingBooks.pushes = [4, 5] := by decide +kernel
        have free : releasingBooks.free = [] := by decide +kernel
        obtain ⟨after, ran, once⟩ := commit_handles_once tracks.inMaster sound.table 0
          (.inr ⟨by rw [free, pushes]; decide, _, _, _, tracks, sound⟩)
        exact ⟨db, _, s, after, opened, run, pushes, ran, once⟩
  · have committed :
        (freeLast fullFile).passes (fun _ freed => (edbTxnCommit 2 freed).passes fun _ closed =>
        decide (closed.ctl.readonly = false ∧ closed.ctl.protWrite = true ∧
          closed.ctl.freelist = 1 ∧
          closed.ctl.objlist = 3 ∧ closed.ctl.txn.length = 0 ∧ arrayLength closed 1 = 1022 ∧
          ptNblocks closed 1 = 1)) = true := by
      decide +kernel
    obtain ⟨_, freed, first, checked⟩ := Outcome.of_passes committed
    obtain ⟨_, closed, second, state⟩ := Outcome.of_passes checked
    obtain ⟨writable, protWrite, freelist, objlist, idle, length, paged⟩ := of_decide_eq_true state
    have sound : Books.Sound [] (Client.mk [1026, 1025] [] [] []).held ⟨1027, List.range' 4 1021,
        []⟩ := fullFile_sound
    obtain ⟨⟨table, effect, begun⟩, kept⟩ := sound.begun
    have ran :=
      edbTxnBegin_run writable protWrite freelist objlist
        (List.length_eq_zero_iff.mp idle) effect.ran 0
    have same : (begunDb closed table).data 2 = closed.data 1 := Db.write_data_self closed 2 _
    have master : InMaster (begunDb closed table) (Books.begun ⟨1027, List.range' 4 1021, []⟩) := by
      refine ⟨protWrite, rfl, ?_, ?_, ?_⟩
      · rw [begun]
        exact objlist
      · exact closed.ctl.nblocks
      · rw [begun]
        rfl
    have silent : (Books.begun ⟨1027, List.range' 4 1021, []⟩).pushes = [] := by decide +kernel
    obtain ⟨after, done, once⟩ := commit_handles_once master kept.table 0 (.inl silent)
    refine ⟨_, after, _, ?_, ?_, ?_, done, once⟩
    · unfold freeAndBegin
      rw [Code.bind_ok first, Code.bind_ok second, ran]
    · rw [← length]
      exact congrArg (fun image : Image => image.word lengthWord) same
    · rw [← paged]
      exact congrArg (fun image : Image => image.word nblocksWord) same

end EverDb
