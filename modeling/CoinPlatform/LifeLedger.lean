/-
# What is kept from life to life

The pool of a node, and the transactions that `produce_block` has taken from it, are in memory
only.  When a process ends between two steps, the next one finds what was stored, with an empty
pool.

* `livesOf`, `keysOf`: what is added to the pool in each life, and the keys that it makes.
* `LifeChains.act`, `LifeChains.restart`: a step adds to the current life, a start ends it.
* `holdsByLife_run`: each store holds one linear chain across all lives, in which the payments of a
  life that is over are a beginning of what was added in it; the rest is lost.
-/
import CoinPlatform.Lives
import CoinPlatform.SoloChains

open ByteOrder StdVector GrowingChain Transition

namespace CoinPlatform

open FileStorage

namespace Node

variable {H : Host} {G : GenesisBlocks}

/-! ## Lives -/

/-- The process ends between two steps, takes no block from its peers, and no file operation of a
store fails. -/
def Orderly (x : Life H) (a : LifeAction H) : Prop :=
  match a with
  | .act a => Solo x.node a
  | .restart _ timePoint valuePoint => timePoint = none ∧ valuePoint = none

/-- What was added in the lives that are over, and in the current one, after one more action. -/
def nextLives (lives : List (List Transaction) × List Transaction) (a : LifeAction H) :
    List (List Transaction) × List Transaction :=
  match a with
  | .act a => (lives.1, lives.2 ++ a.added.toList)
  | .restart _ _ _ => (lives.1 ++ [lives.2], [])

/-- The same after all actions. -/
def livesOf (as : List (LifeAction H)) : List (List Transaction) × List Transaction :=
  as.foldl nextLives ([], [])

/-- The payments of some blocks. -/
def paid (blocks : List ValueBlock) : List Transaction :=
  blocks.flatMap fun block => payments block.transactions

/-- Block after block in each life: a beginning of what was added in a life that is over, and in
the current one everything, with the batch and the pool behind it. -/
structure HeldByLife (lives : List (List Transaction) × List Transaction)
    (segments : List (List ValueBlock)) (blocks : List ValueBlock) (s : State) : Prop where
  ended : List.Forall₂ (fun segment added => paid segment <+: added) segments lives.1
  current : paid blocks ++ payments s.valueLoop.transactions ++ s.transactionPool = lives.2

/-- The keys of each life, when the first one has made these. -/
def keysOf (keys : NodeKeys H) (as : List (LifeAction H)) : List (NodeKeys H) :=
  keys :: as.filterMap fun a =>
    match a with
    | .act _ => none
    | .restart keys _ _ => some keys

/-- A block of the node, built in one of the lives with these keys. -/
def SomeTimeBlock (allKeys : List (NodeKeys H)) (block : TimeBlock) : Prop :=
  ∃ keys ∈ allKeys, OwnTimeBlock H keys block

def SomeValueBlock (allKeys : List (NodeKeys H)) (block : ValueBlock) : Prop :=
  ∃ keys ∈ allKeys, OwnValueBlock H keys block

theorem keysOf_act (keys : NodeKeys H) (as : List (LifeAction H)) (a : Action) :
    keysOf keys (as ++ [.act a]) = keysOf keys as := by
  simp [keysOf, List.filterMap_append]

theorem keysOf_restart (keys : NodeKeys H) (as : List (LifeAction H)) (next : NodeKeys H)
    (timePoint valuePoint : Option StopPoint) :
    keysOf keys (as ++ [.restart next timePoint valuePoint]) = keysOf keys as ++ [next] := by
  simp [keysOf, List.filterMap_append]

theorem livesOf_concat (as : List (LifeAction H)) (a : LifeAction H) :
    livesOf (as ++ [a]) = nextLives (livesOf as) a := by
  rw [livesOf, livesOf, List.foldl_append, List.foldl_cons, List.foldl_nil]

theorem paid_append (blocks blocks' : List ValueBlock) :
    paid (blocks ++ blocks') = paid blocks ++ paid blocks' := List.flatMap_append

/-! ## One step -/

variable {timeGenesis : TimeBlock} {valueGenesis : ValueBlock} {x y : Life H} {r : Chains}
  {lives : List (List Transaction) × List Transaction} {segments : List (List ValueBlock)}
  {blocks : List ValueBlock} {allKeys : List (NodeKeys H)}

/-- What the node holds, with the lives told apart. -/
structure LifeChains (allKeys : List (NodeKeys H)) (timeGenesis : TimeBlock)
    (valueGenesis : ValueBlock) (lives : List (List Transaction) × List Transaction) (x : Life H)
    (r : Chains) (segments : List (List ValueBlock)) (blocks : List ValueBlock) : Prop where
  chains : OwnChains H x.keys (SomeTimeBlock allKeys) (SomeValueBlock allKeys) timeGenesis
    valueGenesis x.node r
  split : r.valueBlocks = valueGenesis :: (segments.flatten ++ blocks)
  held : HeldByLife lives segments blocks x.node

/-- The ledger of the record is that of the lives. -/
theorem LifeChains.ledger_eq
    (h : LifeChains allKeys timeGenesis valueGenesis lives x r segments blocks) :
    ledger x.node r = paid segments.flatten ++ lives.2 := by
  rw [ledger, h.split, ← h.held.current]
  change paid (segments.flatten ++ blocks) ++ _ ++ _ = _
  simp only [paid_append, List.append_assoc]

/-- **A step of a process** adds to the current life. -/
theorem LifeChains.act
    (h : LifeChains allKeys timeGenesis valueGenesis lives x r segments blocks) {a : Action}
    {t : State} (hsolo : Solo x.node a) (hstep : step H x.keys a x.node = some t) :
    ∃ blocks', LifeChains allKeys timeGenesis valueGenesis
      (nextLives lives (.act a : LifeAction H)) ⟨t, x.keys⟩ (r.next a x.node t) segments
      blocks' := by
  obtain ⟨blocks', hsplit⟩ : ∃ blocks', (r.next a x.node t).valueBlocks
      = valueGenesis :: (segments.flatten ++ blocks') := by
    rcases valueChain_next h.chains hsolo hstep with ⟨hsame, -⟩ | ⟨block, ok, -, -, -, hgrown⟩
    · exact ⟨blocks, hsame.trans h.split⟩
    · refine ⟨blocks ++ [block], ?_⟩
      rw [hgrown, h.split, List.cons_append, List.append_assoc]
  refine ⟨blocks', ownChains_step h.chains hsolo hstep, hsplit, h.held.ended, ?_⟩
  have hledger := ledger_step h.chains hsolo hstep
  rw [h.ledger_eq, ledger, hsplit] at hledger
  change paid (segments.flatten ++ blocks') ++ _ ++ _ = _ at hledger
  rw [paid_append] at hledger
  simp only [List.append_assoc, List.append_cancel_left_eq] at hledger
  change paid blocks' ++ _ ++ _ = _
  rw [List.append_assoc]
  exact hledger

/-- A start on a chain that is there leaves it. -/
theorem eq_of_initializeFrom {B : Type} [BlockType B] {e : Endian}
    {storage storage' : FileStorage B}
    {genesisBlockData : Bytes} {genesisHash : Hash} {chain : List B} {last : B}
    (hrep : Represents e storage (LatestMap.ofList BlockType.getHash chain))
    (hlast : chain.getLast? = some last)
    (h : initializeFrom e genesisBlockData genesisHash storage.reopen .ok = .ok (true, storage')) :
    storage' = storage := by
  have hlatest : storage.IsLatest e last := by
    have hread := hrep.getLatestBlock
    rwa [LatestMap.latest_ofList, hlast] at hread
  rw [reopen_eq, initializeFrom_of_isLatest hlatest] at h
  cases h
  rfl

/-- **The next process** finds the chains, and nothing else. -/
theorem LifeChains.restart
    (h : LifeChains allKeys timeGenesis valueGenesis lives x r segments blocks)
    {keys : NodeKeys H} (hrestart : lifeStep H G (.restart keys none none) x = some y) :
    LifeChains (allKeys ++ [keys]) timeGenesis valueGenesis
      (nextLives lives (.restart keys none none)) y r (segments ++ [blocks]) [] := by
  obtain ⟨timeStorage, valueStorage, htime, hvalue, hnode, hkeys⟩ := lifeStep_restart hrestart
  have hlast : y.keys ∈ allKeys ++ [keys] := by
    rw [hkeys]
    exact List.mem_append_right _ (List.mem_singleton_self _)
  obtain rfl : x.node.timeStorage = timeStorage := Option.some.inj htime
  obtain rfl : x.node.valueStorage = valueStorage := Option.some.inj hvalue
  obtain ⟨htimeInit, hvalueInit, hpool, htimeLoop, hvalueLoop, hnetwork⟩ := restart_cases hnode
  obtain ⟨lastTime, -, hlastTime⟩ := h.chains.timeChain.exists_getLast
  obtain ⟨lastValue, -, hlastValue⟩ := h.chains.valueChain.exists_getLast
  have htimeSame := eq_of_initializeFrom h.chains.timeStorage hlastTime htimeInit
  have hvalueSame := eq_of_initializeFrom h.chains.valueStorage hlastValue hvalueInit
  refine ⟨?_, ?_, ?_, ?_⟩
  · exact {
      timeOwn := fun block hblock => ⟨y.keys, hlast, hblock⟩
      valueOwn := fun block hblock => ⟨y.keys, hlast, hblock⟩
      timeStorage := by rw [htimeSame]; exact h.chains.timeStorage
      valueStorage := by rw [hvalueSame]; exact h.chains.valueStorage
      -- the blocks of the lives before stay what they are
      timeChain := h.chains.timeChain.mono
        fun _ ⟨keys, hkeys, hown⟩ => ⟨keys, List.mem_append_left _ hkeys, hown⟩
      valueChain := h.chains.valueChain.mono
        fun _ ⟨keys, hkeys, hown⟩ => ⟨keys, List.mem_append_left _ hkeys, hown⟩
      timePending := fun block hblock => by rw [htimeLoop] at hblock; cases hblock
      batch := fun txs htxs => by rw [hvalueLoop] at htxs; cases htxs
      valuePending := fun block hblock => by rw [hvalueLoop] at hblock; cases hblock
      valueLink := fun k hk => by rw [hvalueLoop] at hk; cases hk
      network := hnetwork }
  · rw [h.split, List.flatten_append]
    simp
  · refine List.rel_append h.held.ended (.cons ?_ .nil)
    rw [← h.held.current, List.append_assoc]
    exact List.prefix_append _ _
  · rw [hvalueLoop, hpool]
    rfl

/-! ## Every life -/

/-- Each store is the map of one chain of blocks that the node has built in its lives, with the keys
that it made in them, and the payments of the value chain are kept life by life. -/
def HoldsByLife (G : GenesisBlocks) (allKeys : List (NodeKeys H))
    (lives : List (List Transaction) × List Transaction) (s : State) : Prop :=
  ∃ timeGenesis valueGenesis timeBlocks segments blocks, G.IsTimeGenesis H.endian timeGenesis ∧
    G.IsValueGenesis H.endian valueGenesis ∧
    Grown TimeBlock.hash TimeBlock.previousHash timeGenesis (SomeTimeBlock allKeys) timeBlocks ∧
    Grown ValueBlock.hash ValueBlock.previousHash valueGenesis (SomeValueBlock allKeys)
      (valueGenesis :: (segments.flatten ++ blocks)) ∧
    Represents H.endian s.timeStorage (LatestMap.ofList BlockType.getHash timeBlocks) ∧
    Represents H.endian s.valueStorage
      (LatestMap.ofList BlockType.getHash (valueGenesis :: (segments.flatten ++ blocks))) ∧
    HeldByLife lives segments blocks s

/-- **Life by life.**  However often a node is stopped between two steps and started again, its
stores hold two linear chains of its own blocks; of what was added to the pool in a life that is
over they keep a beginning, in its order, and nothing that was behind it ever comes back. -/
theorem holdsByLife_run {as : List (LifeAction H)} {s₀ : State} {keys : NodeKeys H}
    (hstart : start H G = some s₀) (hrun : lifeRun H G as ⟨s₀, keys⟩ = some x)
    (horderly : LifeAlong H G Orderly as ⟨s₀, keys⟩) :
    HoldsByLife G (keysOf keys as) (livesOf as) x.node := by
  have hfirst : keys ∈ keysOf keys [] := List.mem_cons_self ..
  obtain ⟨timeGenesis, valueGenesis, htime, hvalue, hown, hledger⟩ := ownChains_of_start
    (fun _ (h : OwnTimeBlock H keys _) => (⟨keys, hfirst, h⟩ : SomeTimeBlock (keysOf keys []) _))
    (fun _ (h : OwnValueBlock H keys _) => (⟨keys, hfirst, h⟩ : SomeValueBlock (keysOf keys []) _))
    hstart
  have hinit : LifeChains (keysOf keys []) timeGenesis valueGenesis
      (livesOf ([] : List (LifeAction H))) ⟨s₀, keys⟩ (.start timeGenesis valueGenesis) [] [] :=
    ⟨hown, rfl, .nil, hledger⟩
  obtain ⟨r, segments, blocks, hend⟩ : ∃ r segments blocks, LifeChains (keysOf keys ([] ++ as))
      timeGenesis valueGenesis (livesOf ([] ++ as)) x r segments blocks := by
    refine run_history (I := fun past x => ∃ r segments blocks, LifeChains (keysOf keys past)
      timeGenesis valueGenesis (livesOf past) x r segments blocks) []
      (fun past x a y hx hC hy => ?_) hrun horderly ⟨_, _, _, hinit⟩
    obtain ⟨r, segments, blocks, hx⟩ := hx
    rw [livesOf_concat]
    cases a with
    | act a =>
        obtain ⟨t, hstep, hy⟩ := Option.bind_eq_some_iff.mp hy
        cases hy
        rw [keysOf_act]
        obtain ⟨blocks', hact⟩ := hx.act hC hstep
        exact ⟨_, _, _, hact⟩
    | restart keys timePoint valuePoint =>
        obtain ⟨rfl, rfl⟩ := hC
        rw [keysOf_restart]
        exact ⟨_, _, _, hx.restart hy⟩
  have hvalueChain := hend.chains.valueChain
  have hvalueStorage := hend.chains.valueStorage
  rw [hend.split] at hvalueChain hvalueStorage
  exact ⟨timeGenesis, valueGenesis, r.timeBlocks, segments, blocks, htime, hvalue,
    hend.chains.timeChain, hvalueChain, hend.chains.timeStorage, hvalueStorage, hend.held⟩

instance decidableOrderly (x : Life H) (a : LifeAction H) : Decidable (Orderly x a) := by
  apply LifeAction.casesOn (motive := fun a => Decidable (Orderly x a)) a <;> intros <;>
    dsimp only [Orderly] <;> infer_instance

/-- Of two payments of the first life one gets into a block before the end; the next life has a
payment of its own. -/
def orderlyLives : List (LifeAction tagHost) :=
  .act (.addTransaction (payment paymentSignature)) :: (produceValueSteps .ok).map .act ++
    [.act (.addTransaction (payment (zeros 64))), .act (.produceTime 0 7),
      .act (.storeProducedTime .ok), .restart nextKeys none none,
      .act (.addTransaction (payment paymentSignature))] ++
    (produceValueSteps .ok).map .act

theorem holdsByLife_run_two :
    ∃ s₀ x, start tagHost shippedGenesis = some s₀ ∧
      lifeRun tagHost shippedGenesis orderlyLives ⟨s₀, tagKeys⟩ = some x ∧
      HoldsByLife shippedGenesis (keysOf tagKeys orderlyLives) (livesOf orderlyLives) x.node := by
  have hsample : (start tagHost shippedGenesis).any (fun s₀ =>
      (lifeRun tagHost shippedGenesis orderlyLives ⟨s₀, tagKeys⟩).isSome &&
        decide (LifeAlong tagHost shippedGenesis Orderly orderlyLives ⟨s₀, tagKeys⟩)) = true := by
    decide +kernel
  obtain ⟨s₀, hstart, hsample⟩ := (Option.any_eq_true _ _).mp hsample
  obtain ⟨hrun, horderly⟩ := (Bool.and_eq_true _ _).mp hsample
  obtain ⟨x, hx⟩ := Option.isSome_iff_exists.mp hrun
  exact ⟨s₀, x, hstart, hx, holdsByLife_run hstart hx (of_decide_eq_true horderly)⟩

end Node

end CoinPlatform
