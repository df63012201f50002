import Mathlib
import BitcoinLight.Node.Filters
import BitcoinLight.Node.Work
import BitcoinLight.Node.Sync

set_option autoImplicit false

/-!
# Requests to a handler, and the states they reach

A handler is opened over a store and then asked to make writes: add headers, filter headers,
filters or checkpoints, recalculate chain work, or set a sync flag. Each request goes through a
view returned so far, the latest one or an older one. `Reachable` collects the shared states, each
with the views returned so far, that a handler opened over an empty store reaches.

Each request gets one lemma here that says what a run of it does to the node: an equation for
adding headers, and for the others what a success writes and that a failure writes nothing.
Later proofs work from these and never unfold the steps again.
-/

namespace BitcoinLight

/-- A write asked of a handler. -/
inductive Request where
  | headers (hs : List Header)
  | filterHeaders (links : List FilterHeader) (stopHash : Hash256)
  | filters (ms : List FilterMessage)
  | checkpoints (cps : List Hash256) (blockHash : Hash256)
  | recalculateWork (cancelled : Nat → Bool)
  | syncing (value : Bool)
  | ibd (value : Bool)

namespace Request

def run : Request → View → NodeStep View
  | headers hs, v => NodeStep.processHeaders v hs
  | filterHeaders links stop, v => NodeStep.processFilterHeaders v links stop
  | filters ms, v => NodeStep.processFilters v ms
  | checkpoints cps b, v => NodeStep.processCheckpoints v cps b
  | recalculateWork cancelled, v => NodeStep.recalculateChainWork v cancelled
  | syncing value, v => NodeStep.setSyncing v value
  | ibd value, v => NodeStep.setIbd v value

end Request

/-- A handler's shared state, and the views it has returned so far, newest first. -/
structure Handler where
  node : Node
  views : List View

namespace Handler

def serve (h : Handler) (req : Request) (v : View) : Handler :=
  match req.run v h.node with
  | .ok v' n' => ⟨n', v' :: h.views⟩
  | .error _ n' => ⟨n', h.views⟩

def serveLatest (h : Handler) (req : Request) : Handler :=
  match h.views with
  | v :: _ => h.serve req v
  | [] => h

end Handler

/-- The states a handler opened with `config` over an empty store reaches, serving requests
through any of the views it has returned, the latest or an older one. -/
inductive Reachable (config : Config) : Handler → Prop
  | opened {n : Node} {v : View} : NodeStep.openStore config {} = .ok v n → Reachable config ⟨n, [v]⟩
  | serve {h : Handler} (req : Request) {v : View} :
      Reachable config h → v ∈ h.views → Reachable config (h.serve req v)

def Node.opened (config : Config) : Node :=
  { store := Store.empty.putHeader (BlockRecord.genesis config.params), generations := [0] }

def View.opened (config : Config) : View :=
  { config, chains := (Node.opened config).store.blockchains config.cacheDepth, session := 0 }

theorem Reachable.serveLatest {config : Config} {h : Handler} (hr : Reachable config h)
    (req : Request) : Reachable config (h.serveLatest req) := by
  unfold Handler.serveLatest
  split
  · rename_i v vs hv
    exact hr.serve req (hv ▸ List.mem_cons_self)
  · exact hr

theorem Reachable.foldl_serveLatest {config : Config} {h : Handler} (hr : Reachable config h)
    (reqs : List Request) : Reachable config (reqs.foldl Handler.serveLatest h) := by
  induction reqs generalizing h with
  | nil => exact hr
  | cons req reqs ih => exact ih (hr.serveLatest req)

namespace View

/-- The candidate chains a write through `v` starts from: its own, or the store's if another
write has been committed since it was taken. -/
def chainsIn (v : View) (n : Node) : List Chain :=
  if v.staleIn n then n.store.blockchains v.config.cacheDepth else v.chains

theorem addCheckpoint_ok {s : Store} {v acc acc' : View} {b : Hash256} {p : Hash256 × Nat}
    {stopR : BlockRecord} (h : v.addCheckpoint s stopR b acc p = .ok acc') :
    ∃ blk, acc' = acc.withCheckpoint blk p.1 := by
  unfold View.addCheckpoint at h
  dsimp only at h
  split at h
  · cases h
  · split at h
    · split at h
      · cases h
      · cases h; exact ⟨_, rfl⟩
    · cases h; exact ⟨_, rfl⟩

theorem foldlM_addCheckpoint {s : Store} {v : View} {stop : BlockRecord} {b : Hash256} :
    ∀ (ps : List (Hash256 × Nat)) (acc acc' : View),
      ps.foldlM (v.addCheckpoint s stop b) acc = .ok acc' →
        ∃ cp, acc' = { acc with checkpoints := cp }
  | [], acc, acc', h => by
    cases h
    exact ⟨acc.checkpoints, rfl⟩
  | p :: ps, acc, acc', h => by
    simp only [List.foldlM_cons] at h
    rcases hp : v.addCheckpoint s stop b acc p with e | a
    · simp [hp, bind, Except.bind] at h
    · simp only [hp, bind, Except.bind] at h
      obtain ⟨blk, rfl⟩ := addCheckpoint_ok hp
      obtain ⟨cp, rfl⟩ := foldlM_addCheckpoint ps _ _ h
      exact ⟨cp, rfl⟩

end View

namespace NodeStep

theorem ofExcept_apply {α : Type} (r : Except Error α) (n : Node) :
    ofExcept r n = match r with
      | .ok a => .ok a n
      | .error e => .error e n := by
  cases r <;> rfl

theorem write_apply (r : Except String Store) (n : Node) :
    write r n = match r with
      | .ok s => .ok () { n with store := s }
      | .error m => .error (.store m) n := by
  cases r <;> rfl

theorem currentChains_apply (v : View) (n : Node) :
    currentChains v n = .ok (v.chainsIn n) n := by
  unfold currentChains isStale store View.chainsIn
  by_cases h : v.staleIn n <;>
    simp [h, bind, EStateM.bind, get, getThe, MonadStateOf.get, EStateM.get, pure, EStateM.pure]

/-- Adding headers, spelled out: the new headers are connected to the candidate chains and the
fork parents loaded for them; what connected is stored, lowest first, and the pruned candidates
make the view of a new generation. -/
theorem processHeaders_apply (v : View) (hs : List Header) (n : Node) :
    processHeaders v hs n =
      if hs.isEmpty then .ok v n
      else
        let fresh := View.freshHeaders n.store (v.chainsIn n) hs
        if fresh.isEmpty then
          .error (.duplicateHeaders s!"all {hs.length} headers already known") n
        else
          let us := connectHeaders fresh (View.withForkParents n.store v.config.cacheDepth
            (fresh.map (·.hash)) (v.chainsIn n) fresh) v.params
          if (View.connectedRecords us).isEmpty then
            .error (.invalidBlockHeader (View.rejection us)) n
          else
            let rs := (View.connectedRecords us).mergeSort fun a b => a.height ≤ b.height
            match n.store.createAll rs with
            | .error m => .error (.store m) n
            | .ok s' =>
              let g := n.generationOf v.session + 1
              .ok { v with chains := View.pruneChains v.config.cacheDepth (us.map (·.chain)),
                           generation := g }
                { n with store := s', generations := n.generations.set v.session g,
                         outbox := n.outbox ++ [(v.session, .headersConnected rs)] } := by
  unfold processHeaders
  by_cases h1 : hs.isEmpty
  · simp [h1]; rfl
  · simp only [h1, Bool.false_eq_true, ↓reduceIte, bind, EStateM.bind]
    rw [currentChains_apply]
    simp only [store, bind, EStateM.bind, get, getThe, MonadStateOf.get, EStateM.get,
      pure, EStateM.pure]
    generalize v.chainsIn n = chains
    generalize View.freshHeaders n.store chains hs = fresh
    by_cases h2 : fresh.isEmpty
    · simp only [h2, ↓reduceIte]; rfl
    · simp only [h2, Bool.false_eq_true, ↓reduceIte]
      generalize connectHeaders fresh _ v.params = us
      by_cases h3 : (View.connectedRecords us).isEmpty
      · simp only [h3, ↓reduceIte]; rfl
      · simp only [h3, Bool.false_eq_true, ↓reduceIte]
        generalize n.store.createAll _ = r
        cases r <;> rfl

theorem processFilterHeaders_apply (v : View) (links : List FilterHeader) (stop : Hash256) (n : Node) :
    processFilterHeaders v links stop n =
      if links.isEmpty then .ok v n
      else match v.requireHeader n.store stop with
        | .error e => .error e n
        | .ok b =>
          let blocks := v.chainEndingAt n.store b links.length
          if blocks.length ≠ links.length then
            .error (.unknownBlockHash s!"{links.length} filter headers but only {blocks.length} block headers end at {stop.toDisplayHex}") n
          else match View.newFilterHeaders n.store (View.filterHeaderBatch links blocks) with
            | .error e => .error e n
            | .ok fresh =>
              if fresh.isEmpty then .ok v n
              else match View.verifyFilterLinks n.store fresh with
                | .error e => .error e n
                | .ok () => match v.verifyCheckpoints fresh with
                  | .error e => .error e n
                  | .ok () => match n.store.createFilterHeaders fresh with
                    | .error m => .error (.store m) n
                    | .ok s' =>
                      .ok v { n with store := s',
                                     outbox := n.outbox ++ [(v.session, .filterHeadersConnected fresh)] } := by
  unfold processFilterHeaders
  by_cases h1 : links.isEmpty
  · simp [h1]; rfl
  · simp only [h1, Bool.false_eq_true, ↓reduceIte, bind, EStateM.bind, store, get, getThe,
      MonadStateOf.get, EStateM.get, pure, EStateM.pure, ofExcept_apply]
    rcases v.requireHeader n.store stop with e | b
    · rfl
    · simp only
      generalize v.chainEndingAt n.store b links.length = blocks
      by_cases h2 : blocks.length = links.length
      · simp only [h2, ne_eq, not_true_eq_false, ↓reduceIte]
        rcases View.newFilterHeaders n.store (View.filterHeaderBatch links blocks) with e | fresh
        · rfl
        · simp only [EStateM.bind, ofExcept_apply]
          by_cases h3 : fresh.isEmpty
          · simp only [h3, ↓reduceIte]; rfl
          · simp only [h3, Bool.false_eq_true, ↓reduceIte, EStateM.bind, ofExcept_apply]
            rcases View.verifyFilterLinks n.store fresh with e | u
            · rfl
            · rcases v.verifyCheckpoints fresh with e | u'
              · rfl
              · simp only [write_apply]
                rcases n.store.createFilterHeaders fresh with m | s' <;> rfl
      · simp only [h2, ne_eq, not_false_eq_true, ↓reduceIte]; rfl

theorem processFilters_apply (v : View) (ms : List FilterMessage) (n : Node) :
    processFilters v ms n =
      if ms.isEmpty then .ok v n
      else match View.repeatedBlock ms with
        | some b => .error (.duplicateFilters s!"block {b.toDisplayHex} appears more than once") n
        | none =>
          let stored := (n.store.filtersOf (ms.map (·.blockHash))).map (·.blockHash)
          let pending := ms.filter fun m => !stored.contains m.blockHash
          if pending.isEmpty then .ok v n
          else match pending.mapM (View.filterOfMessage n.store) with
            | .error e => .error e n
            | .ok fs =>
              let fs := fs.mergeSort fun a b => a.height ≤ b.height
              match n.store.createFilters fs with
              | .error m => .error (.store m) n
              | .ok s' =>
                .ok v { n with store := s',
                               outbox := n.outbox ++ [(v.session, .filtersConnected fs)] } := by
  unfold processFilters
  by_cases h1 : ms.isEmpty
  · simp [h1]; rfl
  · simp only [h1, Bool.false_eq_true, ↓reduceIte, bind]
    rcases View.repeatedBlock ms with _ | b
    · simp only [store, bind, EStateM.bind, get, getThe, MonadStateOf.get, EStateM.get, pure,
        EStateM.pure]
      generalize List.filter _ ms = pending
      by_cases h2 : pending.isEmpty
      · simp only [h2, ↓reduceIte]; rfl
      · simp only [h2, Bool.false_eq_true, ↓reduceIte, EStateM.bind, ofExcept_apply]
        rcases pending.mapM (View.filterOfMessage n.store) with e | fs
        · rfl
        · simp only [write_apply]
          rcases n.store.createFilters _ with m | s' <;> rfl
    · rfl

theorem processCheckpoints_apply (v : View) (cps : List Hash256) (b : Hash256) (n : Node) :
    processCheckpoints v cps b n =
      match v.requireHeader n.store b with
      | .error e => .error e n
      | .ok stop =>
        match cps.zipIdx.foldlM (v.addCheckpoint n.store stop b) v with
        | .error e => .error e n
        | .ok v' => .ok v' n := by
  unfold processCheckpoints
  simp only [store, bind, EStateM.bind, get, getThe, MonadStateOf.get, EStateM.get, pure,
    EStateM.pure, ofExcept_apply]
  rcases v.requireHeader n.store b with e | stop
  · rfl
  · simp only
    rcases cps.zipIdx.foldlM (v.addCheckpoint n.store stop b) v with e | v' <;> rfl

theorem recalculateChainWork_of_none {v : View} {cancelled : Nat → Bool} {n : Node}
    (h : n.store.lowestNoWorkHeight = none) : recalculateChainWork v cancelled n = .ok v n := by
  unfold recalculateChainWork
  simp only [store, bind, EStateM.bind, get, getThe, MonadStateOf.get, EStateM.get, pure,
    EStateM.pure, h]

/-- With a record of no work, recalculation walks the batches upward from the lowest height of
one, in batches of the view's size, from the records one height down; it fails with the store
the walk left when the walk is cancelled, and commits the chains of the store it gives otherwise. -/
theorem recalculateChainWork_of_some {v : View} {cancelled : Nat → Bool} {n : Node} {lowest : Nat}
    (h : n.store.lowestNoWorkHeight = some lowest) :
    recalculateChainWork v cancelled n =
      match Store.reworkFrom v.config.chainWorkBatchSize (n.store.maxHeight.getD lowest) cancelled
          (n.store.maxHeight.getD lowest - lowest + 1) lowest
          (if lowest = 0 then [] else
            (n.store.atHeight (lowest - 1)).map fun r => (r.hash, r.height, r.work))
          n.store with
      | .error written => .error .cancelled { n with store := written }
      | .ok s' => commit v (s'.blockchains v.config.cacheDepth) { n with store := s' } := by
  unfold recalculateChainWork
  simp only [store, bind, EStateM.bind, get, getThe, MonadStateOf.get, EStateM.get, pure,
    EStateM.pure, h]
  -- the walk's outcome decides both sides
  cases Store.reworkFrom v.config.chainWorkBatchSize (n.store.maxHeight.getD lowest) cancelled
      (n.store.maxHeight.getD lowest - lowest + 1) lowest
      (if lowest = 0 then [] else
        (n.store.atHeight (lowest - 1)).map fun r => (r.hash, r.height, r.work))
      n.store <;> rfl

theorem recalculateChainWork_of_ok {v : View} {cancelled : Nat → Bool} {n : Node} {lowest : Nat}
    {s' : Store} (h : n.store.lowestNoWorkHeight = some lowest)
    (hw : Store.reworkFrom v.config.chainWorkBatchSize (n.store.maxHeight.getD lowest) cancelled
      (n.store.maxHeight.getD lowest - lowest + 1) lowest
      (if lowest = 0 then [] else
        (n.store.atHeight (lowest - 1)).map fun r => (r.hash, r.height, r.work))
      n.store = .ok s') :
    ∃ v' n', recalculateChainWork v cancelled n = .ok v' n' ∧ n'.store = s' := by
  rw [recalculateChainWork_of_some h, hw]
  exact ⟨_, _, rfl, rfl⟩

theorem recalculateChainWork_error {v : View} {cancelled : Nat → Bool} {n n' : Node} {e : Error}
    (h : recalculateChainWork v cancelled n = .error e n') :
    e = .cancelled ∧ ∃ lowest, n.store.lowestNoWorkHeight = some lowest ∧
      Store.reworkFrom v.config.chainWorkBatchSize (n.store.maxHeight.getD lowest) cancelled
        (n.store.maxHeight.getD lowest - lowest + 1) lowest
        (if lowest = 0 then [] else
          (n.store.atHeight (lowest - 1)).map fun r => (r.hash, r.height, r.work))
        n.store = .error n'.store ∧ n' = { n with store := n'.store } := by
  rcases hl : n.store.lowestNoWorkHeight with _ | lowest
  · rw [recalculateChainWork_of_none hl] at h
    cases h
  rw [recalculateChainWork_of_some hl] at h
  split at h
  · rename_i written hw
    cases h
    exact ⟨rfl, lowest, rfl, hw, rfl⟩
  · cases h

theorem lowestNoWorkHeight_le_maxHeight {s : Store} {lowest : Nat}
    (h : s.lowestNoWorkHeight = some lowest) : lowest ≤ s.maxHeight.getD lowest := by
  rw [Store.lowestNoWorkHeight, List.min?_eq_some_iff] at h
  obtain ⟨e, he, rfl⟩ := List.mem_map.mp h.1
  have hmem : e.1 ∈ s.headerIndex.map (·.1) := List.mem_map_of_mem (List.mem_filter.mp he).1
  rcases hM : s.maxHeight with _ | M
  · rw [Store.maxHeight, Store.maxIndexHeight, List.max?_eq_none_iff] at hM
    simp [hM] at hmem
  · rw [Store.maxHeight, Store.maxIndexHeight, List.max?_eq_some_iff] at hM
    exact hM.2 _ hmem

theorem recalculateChainWork_of_cancel (v : View) (n : Node) :
    recalculateChainWork v (fun _ => true) n = .ok v n ∨
      recalculateChainWork v (fun _ => true) n = .error .cancelled n := by
  rcases hl : n.store.lowestNoWorkHeight with _ | lowest
  · exact .inl (recalculateChainWork_of_none hl)
  · right
    -- the walk starts at the lowest height, which is at most the greatest
    have hle := lowestNoWorkHeight_le_maxHeight hl
    rw [recalculateChainWork_of_some hl, Store.reworkFrom, if_neg (by omega), if_pos rfl]

theorem openStore_empty {config : Config} {v : View} {n : Node}
    (h : openStore config {} = .ok v n) : n = Node.opened config ∧ v = View.opened config := by
  unfold openStore at h
  simp only [store, bind, EStateM.bind, get, getThe, MonadStateOf.get, EStateM.get, pure,
    EStateM.pure, ofExcept_apply] at h
  rcases hv : config.validate with e | u
  · simp only [hv] at h; cases h
  · simp only [hv] at h
    have hmax : Store.empty.maxHeight = none := rfl
    simp only [hmax, Option.isNone_none, ↓reduceIte, Store.createAll] at h
    have hfind : [BlockRecord.genesis config.params].find?
        (fun r => (Store.empty.findByHash r.hash).isSome) = none := rfl
    simp only [hfind, EStateM.bind, write_apply, EStateM.get, EStateM.pure, set, EStateM.set,
      List.foldl_cons, List.foldl_nil, EStateM.Result.ok.injEq] at h
    obtain ⟨rfl, rfl⟩ := h
    exact ⟨rfl, rfl⟩

theorem openStore_of_validate {config : Config} (hv : config.validate = .ok ()) :
    openStore config {} = .ok (View.opened config) (Node.opened config) := by
  unfold openStore
  simp only [store, bind, EStateM.bind, get, getThe, MonadStateOf.get, EStateM.get, pure,
    EStateM.pure, ofExcept_apply, hv]
  rfl

theorem setSyncing_apply (v : View) (value : Bool) (n : Node) :
    setSyncing v value n =
      .ok v { n with store := { n.store with syncing := value },
                     outbox := if n.store.syncing != value
                       then n.outbox ++ [(v.session, .syncFlagChanged value)] else n.outbox } := by
  unfold setSyncing
  by_cases h : n.store.syncing = value <;>
    simp [h, store, setStore, dispatch, Store.setSyncing, bind, EStateM.bind, get, getThe,
      MonadStateOf.get, EStateM.get, pure, EStateM.pure, modify, modifyGet, MonadStateOf.modifyGet,
      EStateM.modifyGet]

theorem setIbd_apply (v : View) (value : Bool) (n : Node) :
    setIbd v value n = .ok v { n with store := { n.store with ibd := value } } := by
  rfl

theorem processCheckpoints_ok {v v' : View} {cps : List Hash256} {b : Hash256} {n n' : Node}
    (h : processCheckpoints v cps b n = .ok v' n') :
    n' = n ∧ ∃ cp, v' = { v with checkpoints := cp } := by
  rw [processCheckpoints_apply] at h
  split at h
  · cases h
  · split at h
    · cases h
    · rename_i hfold
      cases h
      exact ⟨rfl, View.foldlM_addCheckpoint _ _ _ hfold⟩

theorem processCheckpoints_error {v : View} {cps : List Hash256} {b : Hash256} {n n' : Node}
    {e : Error} (h : processCheckpoints v cps b n = .error e n') : n' = n := by
  rw [processCheckpoints_apply] at h
  split at h
  · cases h; rfl
  · split at h
    · cases h; rfl
    · cases h

theorem processHeaders_error {v : View} {hs : List Header} {n n' : Node} {e : Error}
    (h : processHeaders v hs n = .error e n') : n' = n := by
  rw [processHeaders_apply] at h
  dsimp only at h
  split at h
  · cases h
  · split at h
    · cases h; rfl
    · split at h
      · cases h; rfl
      · split at h
        · cases h; rfl
        · cases h

theorem processHeaders_ok {v v' : View} {hs : List Header} {n n' : Node}
    (h : processHeaders v hs n = .ok v' n') :
    (hs = [] ∧ v' = v ∧ n' = n) ∨
      let fresh := View.freshHeaders n.store (v.chainsIn n) hs
      let us := connectHeaders fresh (View.withForkParents n.store v.config.cacheDepth
        (fresh.map (·.hash)) (v.chainsIn n) fresh) v.params
      let rs := (View.connectedRecords us).mergeSort fun a b => a.height ≤ b.height
      ∃ s', n.store.createAll rs = .ok s' ∧
        v' = { v with chains := View.pruneChains v.config.cacheDepth (us.map (·.chain)),
                      generation := n.generationOf v.session + 1 } ∧
        n' = { n with store := s',
                      generations := n.generations.set v.session (n.generationOf v.session + 1),
                      outbox := n.outbox ++ [(v.session, .headersConnected rs)] } := by
  rw [processHeaders_apply] at h
  dsimp only at h
  split at h
  · rename_i hempty
    cases h
    exact .inl ⟨List.isEmpty_iff.mp hempty, rfl, rfl⟩
  refine .inr ?_
  split at h
  · cases h
  split at h
  · cases h
  split at h
  · cases h
  · rename_i s' hc
    cases h
    exact ⟨s', hc, rfl, rfl⟩

theorem processFilterHeaders_error {v : View} {links : List FilterHeader} {stop : Hash256}
    {n n' : Node} {e : Error} (h : processFilterHeaders v links stop n = .error e n') : n' = n := by
  rw [processFilterHeaders_apply] at h
  dsimp only at h
  -- every check is made before the one write, and each failure returns the node it was given
  split at h
  · cases h
  · split at h
    · cases h; rfl
    · split at h
      · cases h; rfl
      · split at h
        · cases h; rfl
        · split at h
          · cases h
          · split at h
            · cases h; rfl
            · split at h
              · cases h; rfl
              · split at h
                · cases h; rfl
                · cases h

theorem processFilters_error {v : View} {ms : List FilterMessage} {n n' : Node} {e : Error}
    (h : processFilters v ms n = .error e n') : n' = n := by
  rw [processFilters_apply] at h
  dsimp only at h
  split at h
  · cases h
  · split at h
    · cases h; rfl
    · split at h
      · cases h
      · split at h
        · cases h; rfl
        · split at h
          · cases h; rfl
          · cases h

end NodeStep

theorem Request.run_error {req : Request} {v : View} {n n' : Node} {e : Error}
    (h : req.run v n = .error e n') :
    n' = n ∨ ∃ cancelled, req = .recalculateWork cancelled ∧ n.store.lowestNoWorkHeight ≠ none := by
  cases req with
  | headers hs => exact .inl (NodeStep.processHeaders_error h)
  | filterHeaders links stop => exact .inl (NodeStep.processFilterHeaders_error h)
  | filters ms => exact .inl (NodeStep.processFilters_error h)
  | checkpoints cps b => exact .inl (NodeStep.processCheckpoints_error h)
  | recalculateWork cancelled =>
    refine .inr ⟨cancelled, rfl, fun hw => ?_⟩
    rw [run, NodeStep.recalculateChainWork_of_none hw] at h
    cases h
  | syncing value => simp [run, NodeStep.setSyncing_apply] at h
  | ibd value => simp [run, NodeStep.setIbd_apply] at h

namespace Handler

theorem serve_cases (h : Handler) (req : Request) (v : View)
    (hw : h.node.store.lowestNoWorkHeight = none) :
    (∃ v' n', req.run v h.node = .ok v' n' ∧ h.serve req v = ⟨n', v' :: h.views⟩) ∨
      h.serve req v = h := by
  unfold serve
  rcases hr : req.run v h.node with ⟨v', n'⟩ | ⟨e, n'⟩
  · exact .inl ⟨v', n', rfl, rfl⟩
  · rcases Request.run_error hr with rfl | ⟨-, -, hne⟩
    · exact .inr rfl
    · exact absurd hw hne

end Handler

theorem Reachable.start {config : Config} (hv : config.validate = .ok ()) :
    Reachable config ⟨Node.opened config, [View.opened config]⟩ :=
  .opened (NodeStep.openStore_of_validate hv)

end BitcoinLight
