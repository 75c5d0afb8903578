import EverDb.Array.Control
import EverDb.Edb.ReadOnly
import EverDb.MemHash.Bound

/-!
# Freeing a block twice

`txn_free_block` records a block that is older than the transaction as freed, and
refuses it from then on. A block that the transaction allocated or copied only loses its
entry in the table: the next free of it finds no entry and is accepted. What is recorded
as freed stays so until the block is handed out again, whatever is called in between.
-/

namespace EverDb

open Foundation

/-- The block functions, cut off where they would hand out a block of `withheld`. -/
def BlockApi.without (withheld : List Nat) (api : BlockApi EdbDb) : BlockApi EdbDb where
  allocate := do
    let new ← api.allocate
    if new ∈ withheld then .diverge else pure new
  modify block := do
    let new ← api.modify block
    if new ∈ withheld then .diverge else pure new
  free := api.free

/-- `edbApi`, cut off wherever a call hands out a block of `withheld`, at any depth. -/
def edbApiWithout (withheld : List Nat) : Nat → BlockApi EdbDb
  | 0 => edbApi 0
  | depth + 1 =>
    BlockApi.without withheld
      { allocate := txnAllocateBlock (edbApiWithout withheld depth)
        modify := txnModifyBlock (edbApiWithout withheld depth)
        free := txnFreeBlock (edbApiWithout withheld depth) }

/-- One call of a block function. -/
inductive BlockCall where
  | allocate
  | modify (block : Nat)
  | free (block : Nat)

namespace BlockCall

/-- Make the call. -/
def run (api : BlockApi EdbDb) : BlockCall → Code EdbDb Unit
  | allocate => dropped api.allocate
  | modify block => dropped (api.modify block)
  | free block => api.free block

/-- The call hands a block out, by itself or through a call that it makes. -/
def HandsOut (depth block : Nat) (call : BlockCall) (db : EdbDb) : Prop :=
  call.run (edbApiWithout [block] depth) db ≠ call.run (edbApi depth) db

end BlockCall

/-- What permitted calls of the block functions lead to, whatever each of them returns. -/
inductive BlockRun (depth : Nat) (permitted : BlockCall → EdbDb → Prop)
    (start : EdbDb) : EdbDb → Prop
  | refl : BlockRun depth permitted start start
  | step {db after : EdbDb} {call : BlockCall} : BlockRun depth permitted start db →
      permitted call db →
      Leaves after (call.run (edbApi depth) db) → BlockRun depth permitted start after

/-- The table of the current transaction records these blocks as freed. -/
def Remembers (blocks : List Nat) (ctl : Edb) : Prop :=
  ∃ ts older, ctl.txn = ts :: older ∧ ts.blocks.Loose ∧
  ∀ block ∈ blocks, (block, freed) ∈ ts.blocks.items

variable {blocks : List Nat} {db after : EdbDb} {depth block : Nat} {α : Type}

/-- Without numbers to avoid these are the block functions. -/
theorem edbApiWithout_nil (depth : Nat) : edbApiWithout [] depth = edbApi depth := by
  induction depth with
  | zero => rfl
  | succ depth ih =>
      have whole : ∀ call : Code EdbDb Nat,
          (call >>= fun new => if new ∈ ([] : List Nat) then .diverge else pure new) = call := by
        intro call
        funext db
        cases ran : call db with
        | ok value after => rw [Code.bind_ok ran, if_neg (List.not_mem_nil)]; rfl
        | error code after => exact Code.bind_error ran
        | stuck => exact Code.bind_stuck ran
      simp only [edbApiWithout, edbApi, BlockApi.without, ih, whole]

/-! ## The table along a call -/

/-- A change of the control record that leaves the transactions alone. -/
theorem Remembers.setCtl {change : Edb → Edb} (same : ∀ ctl, (change ctl).txn = ctl.txn) :
    KeepsCtl (Remembers blocks) (EverDb.setCtl change) := by
  refine .update fun db held => ?_
  unfold Remembers at held ⊢
  rw [Db.withCtl, same]
  exact held

/-- A call of the operating system leaves the block table. -/
theorem Remembers.osCall (call : OsCall) : KeepsCtl (Remembers blocks) (EverDb.osCall call) :=
  ⟨fun _ held => held⟩

/-- Closing the mapping leaves the block table. -/
theorem Remembers.ioMapClose : KeepsCtl (Remembers blocks) EverDb.ioMapClose :=
  .bind (.gets _) fun _ => .ite (.bind (.gets _) fun _ => .bind (Remembers.osCall _) fun _ =>
    .update fun _ held => held) (.pure ())

/-- The error exit of `io_resize` leaves the block table. -/
theorem Remembers.ioResizeFail (code : Int) :
    KeepsCtl (Remembers blocks) (EverDb.ioResizeFail code) :=
  .bind Remembers.ioMapClose fun _ => .bind (.update fun _ held => held) fun _ => .fail code

/-- `io_resize` leaves the block table. -/
theorem Remembers.ioResize (nblocks : Nat) :
    KeepsCtl (Remembers blocks) (EverDb.ioResize nblocks) := by
  have length : ∀ filesize, KeepsCtl (Remembers blocks) (ioSetLength filesize) := fun filesize =>
    .bind (.gets _) fun _ => .ite
      (.bind (Remembers.osCall _) fun _ => .ite (.pure _)
        (.bind (.update fun _ held => held) fun _ => .pure _))
      (.ite (.bind (Remembers.osCall _) fun _ => .ite (.pure _)
        (.bind (.update fun _ held => held) fun _ => .pure _)) (.pure _))
  have map : ∀ filesize, KeepsCtl (Remembers blocks) (ioMap filesize nblocks) := fun filesize =>
    .bind (Remembers.osCall _) fun _ => .ite (Remembers.ioResizeFail _) (.update fun _ held => held)
  unfold EverDb.ioResize
  exact .ite (.fail _) (.bind Remembers.ioMapClose fun _ => .bind (length _) fun code =>
    .ite (Remembers.ioResizeFail code) (map _))

/-- Asking for a transaction changes nothing. -/
theorem Remembers.requireTxn : KeepsCtl (Remembers blocks) EverDb.requireTxn :=
  .bind (.gets _) fun _ => .ite (.fail _) (.pure ())

/-- Reading the table changes nothing. -/
theorem Remembers.txnGet (block : Nat) : KeepsCtl (Remembers blocks) (EverDb.txnGet block) := by
  constructor
  intro db held
  have opened := held
  obtain ⟨ts, older, txn, _⟩ := opened
  rw [txnGet_eq txn]
  exact (Code.Keeps.ofOption _).run db held

/-- The state found for a block that is recorded as freed. -/
theorem Remembers.txnGet_freed (held : Remembers blocks db.ctl) (member : block ∈ blocks) :
    EverDb.txnGet block db = .ok freed db := by
  obtain ⟨ts, older, txn, loose, bound⟩ := held
  exact txnGet_of_get txn (loose.get_bound (bound block member))

/-- A block recorded as freed may only be recorded so again. -/
theorem Remembers.txnSet {state : Nat} (allowed : block ∈ blocks → state = freed) :
    KeepsCtl (Remembers blocks) (EverDb.txnSet block state) := by
  constructor
  rintro db ⟨ts, older, txn, loose, bound⟩
  rw [txnSet_eq txn]
  cases ran : memHashSet ts.blocks block state with
  | none => trivial
  | some table =>
      obtain ⟨others, own⟩ := loose.set_bound ran
      refine ⟨_, older, rfl, (loose.set ran).1, fun other member => ?_⟩
      by_cases same : other = block
      · subst same
        have nonzero : other ≠ 0 := by
          obtain ⟨slot, _, there⟩ := Probing.mem_bindings.mp (bound other member)
          exact (slots_eq_some.mp there).2.1
        rw [← allowed member]
        exact own nonzero
      · exact others other freed same (bound other member)

/-! ## The block functions -/

/-- `freelist_allocate_block` keeps what the block functions keep. -/
theorem Remembers.freelistAllocateBlock {api : BlockApi EdbDb}
    (keeps : api.KeepsCtl (Remembers blocks)) :
    KeepsCtl (Remembers blocks) (EverDb.freelistAllocateBlock api) := by
  unfold EverDb.freelistAllocateBlock
  refine .bind (.gets _) fun freelist => .bind (keeps.modify freelist) fun root =>
    .bind (Remembers.setCtl fun _ => rfl) fun _ => .bind (.gets _) fun length => .ite ?_ ?_
  · exact .bind (.gets _) fun freelist => .bind (keeps.arrayPop freelist) fun element => .pure _
  · exact .bind (.gets _) fun nblocks => .bind (Remembers.ioResize _) fun _ =>
      .bind (.forLoop (fun i => .bind (.gets _) fun freelist => keeps.arrayPush freelist _) _ _)
        fun _ => .pure _

/-- `freelist_free_block` keeps what the block functions keep. -/
theorem Remembers.freelistFreeBlock {api : BlockApi EdbDb}
    (keeps : api.KeepsCtl (Remembers blocks)) (block : Nat) :
    KeepsCtl (Remembers blocks) (EverDb.freelistFreeBlock api block) := by
  unfold EverDb.freelistFreeBlock
  exact .ite (.exitWith _) (.bind (.gets _) fun freelist =>
    .bind (keeps.modify freelist) fun root =>
    .bind (Remembers.setCtl fun _ => rfl) fun _ => .bind (.gets _) fun freelist =>
      keeps.arrayPush freelist _)

/-- Recording a block that is handed out: nothing comes of it when the block is withheld. -/
theorem Remembers.handOut (new state : Nat) :
    KeepsCtl (Remembers blocks)
      (EverDb.txnSet new state >>= fun _ => if new ∈ blocks then .diverge else pure new) := by
  by_cases withheld : new ∈ blocks
  · constructor
    rintro db ⟨ts, older, txn, _⟩
    simp only [withheld, if_true]
    cases ran : memHashSet ts.blocks new state with
    | none =>
        have stuck : EverDb.txnSet new state db = .stuck := by rw [txnSet_eq txn, ran]; rfl
        rw [Code.bind_stuck stuck]
        trivial
    | some table =>
        have set : EverDb.txnSet new state db = .ok () (db.withCtl fun ctl =>
            { ctl with txn := { ts with blocks := table } :: older }) := by
          rw [txnSet_eq txn, ran]
          rfl
        rw [Code.bind_ok set]
        trivial
  · simp only [withheld, if_false]
    exact .bind (Remembers.txnSet fun member => absurd member withheld) fun _ => .pure new

/-- `edb_allocate_block` writes the key of the block that it returns, which is none of
these. -/
theorem Remembers.allocate {api : BlockApi EdbDb} (keeps : api.KeepsCtl (Remembers blocks)) :
    KeepsCtl (Remembers blocks)
      (txnAllocateBlock api >>= fun new => if new ∈ blocks then .diverge else pure new) := by
  unfold txnAllocateBlock
  simp only [Code.bind_assoc]
  exact .bind Remembers.requireTxn fun _ => .bind (Remembers.freelistAllocateBlock keeps) fun new =>
    Remembers.handOut new allocated

/-- A copy between two blocks leaves the table. -/
theorem Remembers.copyMapped (target source : Nat) :
    KeepsCtl (Remembers blocks) (EverDb.copyMapped target source) := by
  unfold EverDb.copyMapped
  exact .bind (.gets _) fun _ => .ite (.copyBlock target source) .diverge

/-- `edb_modify_block` writes the key of the copy that it returns, which is none of these.
-/
theorem Remembers.modify {api : BlockApi EdbDb}
    (keeps : api.KeepsCtl (Remembers blocks)) (block : Nat) :
    KeepsCtl (Remembers blocks)
      (txnModifyBlock api block >>= fun new => if new ∈ blocks then .diverge else pure new) := by
  have same : KeepsCtl (Remembers blocks)
      (Pure.pure block >>= fun new => if new ∈ blocks then .diverge else pure new) :=
    .bind (.pure block) fun _ => .ite .diverge (.pure _)
  unfold txnModifyBlock
  simp only [Code.bind_assoc]
  refine .bind Remembers.requireTxn fun _ => .bind (Remembers.txnGet block) fun state => ?_
  split
  · exact same
  · split
    · exact .bind (.fail _) fun _ => .ite .diverge (.pure _)
    · split
      · exact same
      · simp only [Code.bind_assoc]
        exact .bind (Remembers.freelistAllocateBlock keeps) fun new =>
          .bind (Remembers.copyMapped new block) fun _ =>
          Remembers.handOut new block

/-- A block that is recorded as freed is refused, and the free of another one changes no
such record. -/
theorem Remembers.free {api : BlockApi EdbDb}
    (keeps : api.KeepsCtl (Remembers blocks)) (block : Nat) :
    KeepsCtl (Remembers blocks) (txnFreeBlock api block) := by
  have push : KeepsCtl (Remembers blocks) (EverDb.freelistFreeBlock api block).ignore :=
    (Remembers.freelistFreeBlock keeps block).ignore
  unfold txnFreeBlock
  refine .bind Remembers.requireTxn fun _ =>
    .bind_of (Remembers.txnGet block) fun db state middle held found => ?_
  have kept := (Remembers.txnGet block).of_ok held found
  have recorded : block ∈ blocks → state = freed := by
    intro member
    rw [Remembers.txnGet_freed held member] at found
    cases found
    rfl
  by_cases new : state = allocated
  · rw [if_pos new]
    have apart : block ∉ blocks := fun member => by
      rw [recorded member] at new
      cases new
    exact (Code.Keeps.bind (Remembers.txnSet fun member => absurd member apart) fun _ =>
      push).run middle kept
  · rw [if_neg new]
    by_cases again : state = freed
    · rw [if_pos again]
      exact kept
    · have apart : block ∉ blocks := fun member => again (recorded member)
      rw [if_neg again]
      by_cases copied : state ≠ 0
      · rw [if_pos copied]
        exact (Code.Keeps.bind (Remembers.txnSet fun member => absurd member apart) fun _ =>
          .bind (Remembers.txnSet fun _ => rfl) fun _ => push).run middle kept
      · rw [if_neg copied]
        exact (Remembers.txnSet fun _ => rfl).run middle kept

/-- However deep the calls nest, a block recorded as freed stays so unless it is handed
out. -/
theorem edbApiWithout_keeps (depth : Nat) :
    (edbApiWithout blocks depth).KeepsCtl (Remembers blocks) := by
  induction depth with
  | zero => exact ⟨.diverge, fun _ => .diverge, fun _ => .diverge⟩
  | succ depth ih => exact ⟨Remembers.allocate ih, Remembers.modify ih, Remembers.free ih⟩

/-- Every block call keeps the freed blocks' states. -/
theorem BlockCall.run_keeps {api : BlockApi EdbDb} (keeps : api.KeepsCtl (Remembers blocks))
    (call : BlockCall) :
    KeepsCtl (Remembers blocks) (call.run api) := by
  cases call with
  | allocate => exact .bind keeps.allocate fun _ => .pure ()
  | modify block => exact .bind (keeps.modify block) fun _ => .pure ()
  | free block => exact keeps.free block

/-! ## A run -/

/-- What a call keeps holds in the state that it leaves. -/
theorem Leaves.keeps {Inv : EdbDb → Prop} {call : Code EdbDb α}
    (keeps : Code.Keeps Inv call) (held : Inv db)
    (leaves : Leaves after (call db)) : Inv after := by
  cases ran : call db with
  | ok value last =>
      rw [ran] at leaves
      cases leaves
      exact keeps.of_ok held ran
  | error code last =>
      rw [ran] at leaves
      cases leaves
      exact keeps.of_error held ran
  | stuck =>
      rw [ran] at leaves
      cases leaves

variable {start later : EdbDb}

/-- A transaction keeps its table in order, whatever its block functions are called with. -/
theorem BlockRun.remembers_table {permitted : BlockCall → EdbDb → Prop}
    (run : BlockRun depth permitted start db)
    (held : Remembers [] start.ctl) : Remembers [] db.ctl := by
  have keeps : (edbApiWithout [] depth).KeepsCtl (Remembers []) := edbApiWithout_keeps depth
  rw [edbApiWithout_nil] at keeps
  induction run with
  | refl => exact held
  | step _ _ leaves ih => exact leaves.keeps (BlockCall.run_keeps keeps _) ih

/-- Until it is handed out, a block stays recorded as freed. -/
theorem BlockRun.remembers
    (run : BlockRun depth (fun call db => ¬call.HandsOut depth block db) start db)
    (held : Remembers [block] start.ctl) : Remembers [block] db.ctl := by
  induction run with
  | refl => exact held
  | step _ kept leaves ih =>
      have same := Classical.not_not.mp kept
      rw [← same] at leaves
      exact leaves.keeps (BlockCall.run_keeps (edbApiWithout_keeps depth) _) ih

/-- A transaction begins with nothing freed. -/
theorem Remembers.of_begin {begun : EdbDb} (begins : edbTxnBegin depth start = .ok () begun) :
    Remembers [] begun.ctl := by
  have master : KeepsCtl (Remembers []) txnBeginMaster := by
    unfold txnBeginMaster
    exact .bind (.gets _) fun _ => .bind (.gets _) fun _ => .ite (.fail _) (.ite (.fail _)
      (.bind (Remembers.copyMapped _ _) fun _ =>
        .bind (Remembers.txnSet fun member => absurd member List.not_mem_nil) fun _ =>
        Remembers.setCtl fun _ => rfl))
  obtain ⟨_, ready, _, began⟩ := Code.of_bind_ok begins
  unfold txnBegin at began
  rw [Code.gets_bind] at began
  split at began
  · unfold EverDb.setCtl at began
    rw [Code.update_bind] at began
    have fresh : Remembers [] (ready.withCtl fun ctl =>
        { ctl with txn := [⟨ctl.nblocks, memHashNew⟩] }).ctl :=
      ⟨_, [], rfl, .fresh, fun _ member => absurd member List.not_mem_nil⟩
    have whole : KeepsCtl (Remembers []) (txnBeginMaster >>= fun _ =>
        EverDb.setCtl fun ctl => { ctl with txnId := u32 (ctl.txnId + 1) }) :=
      master.bind fun _ => Remembers.setCtl fun _ => rfl
    exact whole.of_ok fresh began
  · obtain ⟨_, last, _, failed⟩ := Code.of_bind_ok began
    obtain ⟨_, _, _, refused⟩ := Code.of_bind_ok failed
    cases refused

/-- The free of a block without an entry writes the entry and calls no block function. -/
theorem txnFreeBlock_untouched {ts : TxnState} {older : List TxnState}
    (txn : db.ctl.txn = ts :: older) (untouched : memHashGet ts.blocks block = some 0)
    (api : BlockApi EdbDb) : txnFreeBlock api block db = EverDb.txnSet block freed db := by
  unfold txnFreeBlock
  rw [Code.bind_ok (requireTxn_run txn), Code.bind_ok (txnGet_of_get txn untouched),
    if_neg (by decide), if_neg (by decide), if_neg (by decide)]

/-- A first free that finds no entry records the block as freed. -/
theorem Remembers.of_free (held : Remembers [] db.ctl) (nonzero : block ≠ 0)
    (untouched : memHashGet (currentBlocks db) block = some 0)
    (accepted : edbFreeBlock depth block db = .ok () after) : Remembers [block] after.ctl := by
  obtain ⟨ts, older, txn, loose, _⟩ := held
  cases depth with
  | zero => cases accepted
  | succ depth =>
      rw [currentBlocks_eq txn] at untouched
      change txnFreeBlock (edbApi depth) block db = .ok () after at accepted
      rw [txnFreeBlock_untouched txn untouched, txnSet_eq txn] at accepted
      cases ran : memHashSet ts.blocks block freed with
      | none =>
          rw [ran] at accepted
          cases accepted
      | some table =>
          rw [ran] at accepted
          cases accepted
          refine ⟨_, older, rfl, (loose.set ran).1, fun other member => ?_⟩
          rw [List.mem_singleton.mp member]
          exact (loose.set_bound ran).2 nonzero

/-- The free of a block that is recorded as freed is refused, and changes nothing. -/
theorem Remembers.refused (held : Remembers [block] db.ctl) (depth : Nat) :
    edbFreeBlock (depth + 1) block db = .error edbErrTxnInvalidBlock db := by
  have found := Remembers.txnGet_freed held (List.mem_singleton_self block)
  obtain ⟨ts, older, txn, _⟩ := held
  change txnFreeBlock (edbApi depth) block db = _
  unfold txnFreeBlock
  rw [Code.bind_ok (requireTxn_run txn), Code.bind_ok found, if_neg (by decide), if_pos rfl]
  rfl

/-- Once a block without an entry in the table of the transaction is freed, and until
it is handed out, every further free of it is refused and changes nothing. -/
theorem second_free_refused {begun : EdbDb} (begins : edbTxnBegin depth start = .ok () begun)
    (history : BlockRun depth (fun _ _ => True) begun db) (nonzero : block ≠ 0)
    (untouched : memHashGet (currentBlocks db) block = some 0)
    (accepted : edbFreeBlock depth block db = .ok () after)
    (rest : BlockRun depth (fun call db => ¬call.HandsOut depth block db) after later) :
    edbFreeBlock depth block later = .error edbErrTxnInvalidBlock later := by
  have recorded := (history.remembers_table (.of_begin begins)).of_free nonzero untouched accepted
  cases depth with
  | zero => cases accepted
  | succ depth => exact (rest.remembers recorded).refused depth

/-- The free of a block without an entry calls no other block function. -/
theorem free_untouched {withheld : Nat} (open_ : db.ctl.txn ≠ []) (depth : Nat)
    (untouched : memHashGet (currentBlocks db) block = some 0) :
    ¬(BlockCall.free block).HandsOut (depth + 1) withheld db := by
  obtain ⟨ts, older, txn⟩ := List.exists_cons_of_ne_nil open_
  rw [currentBlocks_eq txn] at untouched
  have marks := txnFreeBlock_untouched txn untouched
  exact fun differs => differs ((marks _).trans (marks _).symm)

/-- The modification of a block that the transaction allocated hands out that block and no
other. -/
theorem modify_allocated {withheld : Nat} (open_ : db.ctl.txn ≠ []) (depth : Nat)
    (new : memHashGet (currentBlocks db) block = some allocated) (apart : block ≠ withheld) :
    ¬(BlockCall.modify block).HandsOut (depth + 1) withheld db := by
  obtain ⟨ts, older, txn⟩ := List.exists_cons_of_ne_nil open_
  rw [currentBlocks_eq txn] at new
  have found : txnGet block db = .ok allocated db := txnGet_of_get txn new
  have returns : ∀ api : BlockApi EdbDb, txnModifyBlock api block db = .ok block db := by
    intro api
    unfold txnModifyBlock
    rw [Code.bind_ok (requireTxn_run txn), Code.bind_ok found, if_pos rfl]
    rfl
  have cut : (edbApiWithout [withheld] (depth + 1)).modify block db = .ok block db := by
    change (txnModifyBlock (edbApiWithout [withheld] depth) block >>= _) db = _
    rw [Code.bind_ok (returns _), if_neg (by simpa using apart)]
    rfl
  have whole : (edbApi (depth + 1)).modify block db = .ok block db := returns _
  refine fun differs => differs ?_
  change dropped _ db = dropped _ db
  unfold dropped
  rw [Code.bind_ok cut, Code.bind_ok whole]

/-- Two blocks of an earlier transaction. The transaction allocates block 6 before it frees
block 4, and frees block 5 and writes to block 6 before it frees block 4 again. -/
theorem second_free_refused_later : ∃ begun db after middle later : EdbDb,
    edbAllocateBlock 3 begun = .ok 6 db ∧ edbFreeBlock 3 4 db = .ok () after ∧
    edbFreeBlock 3 5 after = .ok () middle ∧ edbModifyBlock 3 6 middle = .ok 6 later ∧
    edbFreeBlock 3 4 later = .error edbErrTxnInvalidBlock later := by
  let setup : Code EdbDb Unit := do
    edbOpenNew
    edbTxnBegin 3
    let _ ← edbAllocateBlock 3
    let _ ← edbAllocateBlock 3
    edbTxnCommit 3
  have run : (setup emptyFile).passes (fun _ start => (edbTxnBegin 3 start).passes fun _ begun =>
      (edbAllocateBlock 3 begun).passes fun new db =>
      decide (new = 6 ∧ memHashGet (currentBlocks db) 4 = some 0) &&
        (edbFreeBlock 3 4 db).passes fun _ after =>
          decide (after.ctl.txn.length = 1 ∧ memHashGet (currentBlocks after) 5 = some 0) &&
            (edbFreeBlock 3 5 after).passes fun _ middle =>
              decide (middle.ctl.txn.length = 1 ∧ memHashGet (currentBlocks middle) 6 =
                some allocated) &&
                (edbModifyBlock 3 6 middle).passes fun same _ => decide (same = 6)) = true := by
    decide +kernel
  obtain ⟨_, start, _, began⟩ := Outcome.of_passes run
  obtain ⟨_, begun, begins, rest⟩ := Outcome.of_passes began
  obtain ⟨new, db, allocates, rest⟩ := Outcome.of_passes rest
  rw [Bool.and_eq_true, decide_eq_true_eq] at rest
  obtain ⟨⟨rfl, untouched⟩, rest⟩ := rest
  obtain ⟨_, after, accepted, rest⟩ := Outcome.of_passes rest
  rw [Bool.and_eq_true, decide_eq_true_eq] at rest
  obtain ⟨⟨single, other⟩, rest⟩ := rest
  obtain ⟨_, middle, freed, rest⟩ := Outcome.of_passes rest
  rw [Bool.and_eq_true, decide_eq_true_eq] at rest
  obtain ⟨⟨still, new⟩, rest⟩ := rest
  obtain ⟨same, later, modified, here⟩ := Outcome.of_passes rest
  obtain rfl := of_decide_eq_true here
  have took : Leaves db (BlockCall.allocate.run (edbApi 3) begun) := by
    change Leaves db (dropped (edbAllocateBlock 3) begun)
    unfold dropped
    rw [Code.bind_ok allocates]
    exact .ok ()
  have marked : Leaves middle ((BlockCall.free 5).run (edbApi 3) after) := by
    change Leaves middle (edbFreeBlock 3 5 after)
    rw [freed]
    exact .ok ()
  have wrote : Leaves later ((BlockCall.modify 6).run (edbApi 3) middle) := by
    change Leaves later (dropped (edbModifyBlock 3 6) middle)
    unfold dropped
    rw [Code.bind_ok modified]
    exact .ok ()
  have open_ : ∀ {db : EdbDb}, db.ctl.txn.length = 1 → db.ctl.txn ≠ [] :=
    fun single => List.ne_nil_of_length_pos (by omega)
  have first : BlockRun 3 (fun call db => ¬call.HandsOut 3 4 db) after middle :=
    .step .refl (free_untouched (open_ single) 2 other) marked
  have between : BlockRun 3 (fun call db => ¬call.HandsOut 3 4 db) after later :=
    .step first (modify_allocated (open_ still) 2 new (by decide)) wrote
  have history : BlockRun 3 (fun _ _ => True) begun db := .step .refl trivial took
  exact ⟨begun, db, after, middle, later, allocates, accepted, freed, modified,
    second_free_refused begins history (by decide) untouched accepted between⟩

/-- A block that the transaction allocated is freed twice. -/
theorem second_free_accepted :
    ¬∀ (depth block : Nat) (start begun db after later : EdbDb), edbTxnBegin depth
      start = .ok () begun →
      BlockRun depth (fun _ _ => True) begun db → block ≠ 0 →
      edbFreeBlock depth block db = .ok () after →
      BlockRun depth (fun call db => ¬call.HandsOut depth block db) after later →
      edbFreeBlock depth block later = .error edbErrTxnInvalidBlock later := by
  have run :
      (edbOpenNew emptyFile).passes (fun _ start => (edbTxnBegin 3 start).passes fun _ begun =>
      (BlockCall.allocate.run (edbApi 3) begun).passes fun _ db =>
      (edbFreeBlock 3 4 db).passes fun _ after =>
      (edbFreeBlock 3 4 after).passes fun _ _ => true) = true := by
    decide +kernel
  obtain ⟨_, start, _, began⟩ := Outcome.of_passes run
  obtain ⟨_, begun, begins, rest⟩ := Outcome.of_passes began
  obtain ⟨_, db, allocates, rest⟩ := Outcome.of_passes rest
  obtain ⟨_, after, accepted, rest⟩ := Outcome.of_passes rest
  obtain ⟨_, last, again, _⟩ := Outcome.of_passes rest
  have leaves : Leaves db (BlockCall.allocate.run (edbApi 3) begun) := by
    rw [allocates]
    exact .ok ()
  intro always
  have refused :=
    always 3 4 start begun db after after begins (.step .refl trivial leaves)
      (by decide) accepted .refl
  rw [again] at refused
  cases refused

end EverDb
