import Usdy.Manager
import Usdy.Pricer

/-! The calls USDYManager takes, one step of the chain, and runs from a deployment. A call that reverts
    changes nothing. Between calls the block time moves on, and the other contracts may change their
    state and their answers. -/

namespace Usdy

variable {T : Type}

/-- The sender of a call, which is never the zero address. -/
structure Sender where
  address : Address
  ne_zero : address ≠ 0
  deriving DecidableEq

/-- The calls that only write the configuration. -/
inductive AdminCall
  -- RWAHub
  | setMinimumRedemptionAmount (minimum : Uint256)
  | setMinimumDepositAmount (minimum : Uint256)
  | setMaximumRedemptionAmount (maximum : Uint256)
  | setMaximumDepositAmount (maximum : Uint256)
  | setMintFee (mintFee : Uint256)
  | setRedemptionFee (redemptionFee : Uint256)
  | setPricer (newPricer : Address)
  | setFeeRecipient (newFeeRecipient : Address)
  | setAssetSender (newAssetSender : Address)
  | setAssetRecipient (newAssetRecipient : Address)
  | pauseSubscription
  | pauseRedemption
  | unpauseSubscription
  | unpauseRedemption
  -- RWAHubOffChainRedemptions
  | pauseOffChainRedemption
  | unpauseOffChainRedemption
  | setOffChainRedemptionMinimum (minimum : Uint256)
  | pauseOffChainSubscription
  | unpauseOffChainSubscription
  | setOffChainSubscriptionMinimum (minimum : Uint256)
  -- USDYManager
  | setBlocklist (blocklist : Address)
  | setMaximumDepositAmountInEpoch (maximum : Uint256)
  | setMaximumRedemptionAmountInEpoch (maximum : Uint256)
  | setEpochStartTime (epochStartTime : Uint256)
  | setEpochInterval (epochInterval : Uint256)
  | setTotalMaximumDepositAmountInEpoch (maximum : Uint256)
  | setTotalMaximumRedemptionAmountInEpoch (maximum : Uint256)
  deriving DecidableEq

def AdminCall.exec (caller : Address) : AdminCall → State T → Except Err (State T)
  | .setMinimumRedemptionAmount minimum => RWAHub.setMinimumRedemptionAmount caller minimum
  | .setMinimumDepositAmount minimum => RWAHub.setMinimumDepositAmount caller minimum
  | .setMaximumRedemptionAmount maximum => RWAHub.setMaximumRedemptionAmount caller maximum
  | .setMaximumDepositAmount maximum => RWAHub.setMaximumDepositAmount caller maximum
  | .setMintFee mintFee => RWAHub.setMintFee caller mintFee
  | .setRedemptionFee redemptionFee => RWAHub.setRedemptionFee caller redemptionFee
  | .setPricer newPricer => RWAHub.setPricer caller newPricer
  | .setFeeRecipient newFeeRecipient => RWAHub.setFeeRecipient caller newFeeRecipient
  | .setAssetSender newAssetSender => RWAHub.setAssetSender caller newAssetSender
  | .setAssetRecipient newAssetRecipient => RWAHub.setAssetRecipient caller newAssetRecipient
  | .pauseSubscription => RWAHub.pauseSubscription caller
  | .pauseRedemption => RWAHub.pauseRedemption caller
  | .unpauseSubscription => RWAHub.unpauseSubscription caller
  | .unpauseRedemption => RWAHub.unpauseRedemption caller
  | .pauseOffChainRedemption => RWAHubOffChainRedemptions.pauseOffChainRedemption caller
  | .unpauseOffChainRedemption => RWAHubOffChainRedemptions.unpauseOffChainRedemption caller
  | .setOffChainRedemptionMinimum minimum => RWAHubOffChainRedemptions.setOffChainRedemptionMinimum caller minimum
  | .pauseOffChainSubscription => RWAHubOffChainRedemptions.pauseOffChainSubscription caller
  | .unpauseOffChainSubscription => RWAHubOffChainRedemptions.unpauseOffChainSubscription caller
  | .setOffChainSubscriptionMinimum minimum =>
    RWAHubOffChainRedemptions.setOffChainSubscriptionMinimum caller minimum
  | .setBlocklist blocklist => USDYManager.setBlocklist caller blocklist
  | .setMaximumDepositAmountInEpoch maximum => USDYManager.setMaximumDepositAmountInEpoch caller maximum
  | .setMaximumRedemptionAmountInEpoch maximum => USDYManager.setMaximumRedemptionAmountInEpoch caller maximum
  | .setEpochStartTime epochStartTime => USDYManager.setEpochStartTime caller epochStartTime
  | .setEpochInterval epochInterval => USDYManager.setEpochInterval caller epochInterval
  | .setTotalMaximumDepositAmountInEpoch maximum => USDYManager.setTotalMaximumDepositAmountInEpoch caller maximum
  | .setTotalMaximumRedemptionAmountInEpoch maximum =>
    USDYManager.setTotalMaximumRedemptionAmountInEpoch caller maximum

inductive Call
  | requestSubscription (amount : Uint256)
  | requestSubscriptionServicedOffchain (user : Address) (amount : Uint256) (offChainDestination : Bytes32)
  | requestRedemption (amount : Uint256)
  | requestRedemptionServicedOffchain (amountRWATokenToRedeem : Uint256) (offChainDestination : Bytes32)
  | claimMint (depositIds : List Bytes32)
  | claimRedemption (redemptionIds : List Bytes32)
  | setClaimableTimestamp (claimTimestamp : Uint256) (depositIds : List Bytes32)
  | setPriceIdForDeposits (depositIds : List Bytes32) (priceIds : List Uint256)
  | setPriceIdForRedemptions (redemptionIds : List Bytes32) (priceIds : List Uint256)
  | overwriteDepositor (depositIdToOverwrite : Bytes32) (user : Address) (depositAmountAfterFee priceId : Uint256)
  | overwriteRedeemer (redemptionIdToOverwrite : Bytes32) (user : Address) (rwaTokenAmountBurned priceId : Uint256)
  | grantRole (role : Role) (account : Address)
  | revokeRole (role : Role) (account : Address)
  | renounceRole (role : Role) (account : Address)
  | admin (call : AdminCall)
  deriving DecidableEq

/-- A call to the manager where its calls to the tokens go as `token` says. -/
def execBy (token : TokenStep T) (caller : Address) : Call → State T → Except Err (State T)
  | .requestSubscription amount => USDYManager.requestSubscription token caller amount
  | .requestSubscriptionServicedOffchain user amount offChainDestination =>
    USDYManager.requestSubscriptionServicedOffchain caller user amount offChainDestination
  | .requestRedemption amount => USDYManager.requestRedemption token caller amount
  | .requestRedemptionServicedOffchain amountRWATokenToRedeem offChainDestination =>
    USDYManager.requestRedemptionServicedOffchain token caller amountRWATokenToRedeem offChainDestination
  | .claimMint depositIds => USDYManager.claimMint token depositIds
  | .claimRedemption redemptionIds => RWAHub.claimRedemption token redemptionIds
  | .setClaimableTimestamp claimTimestamp depositIds =>
    USDYManager.setClaimableTimestamp caller claimTimestamp depositIds
  | .setPriceIdForDeposits depositIds priceIds => RWAHub.setPriceIdForDeposits caller depositIds priceIds
  | .setPriceIdForRedemptions redemptionIds priceIds =>
    RWAHub.setPriceIdForRedemptions caller redemptionIds priceIds
  | .overwriteDepositor depositIdToOverwrite user depositAmountAfterFee priceId =>
    RWAHub.overwriteDepositor caller depositIdToOverwrite user depositAmountAfterFee priceId
  | .overwriteRedeemer redemptionIdToOverwrite user rwaTokenAmountBurned priceId =>
    RWAHub.overwriteRedeemer caller redemptionIdToOverwrite user rwaTokenAmountBurned priceId
  | .grantRole role account => State.grantRole caller role account
  | .revokeRole role account => State.revokeRole caller role account
  | .renounceRole role account => State.renounceRole caller role account
  | .admin call => call.exec caller

section Exec
variable (X : Tokens T)

/-- The same with tokens that only return or revert. -/
def exec : Address → Call → State T → Except Err (State T) := execBy X

/-! ### Steps -/

/-- Somebody calls the manager, time passes, or the other contracts change their answers and their tokens. -/
inductive Action (T : Type)
  | call (sender : Sender) (call : Call)
  | block (time : Uint256)
  | world (views : Views) (tokens : T)

/-- What a family of runs assumes: of every call that succeeds, in the state before it, and of every
    move of the other contracts. -/
structure Rules (T : Type) where
  call : State T → Sender → Call → Prop := fun _ _ _ => True
  world : State T → Views → T → Prop := fun _ _ _ => True

/-- Nothing is assumed. -/
def Rules.any : Rules T := {}

/-- One step: a call that succeeds, a call that reverts, a later block, or a move of the other contracts. -/
inductive Step (rules : Rules T) : State T → Action T → State T → Prop
  | call {s t : State T} {sender : Sender} {call : Call} (h : exec X sender.address call s = .ok t)
      (allowed : rules.call s sender call) : Step rules s (.call sender call) t
  | reverted {s : State T} {sender : Sender} {call : Call} {e : Err}
      (h : exec X sender.address call s = .error e) : Step rules s (.call sender call) s
  | block {s : State T} {time : Uint256} (later : s.now ≤ time) : Step rules s (.block time) { s with now := time }
  | world {s : State T} {views : Views} {tokens : T} (allowed : rules.world s views tokens) :
      Step rules s (.world views tokens) { s with views, tokens }

/-- The steps of a list of actions. -/
abbrev Run (rules : Rules T) : State T → List (Action T) → State T → Prop := Trail (Step X rules)

/-- The state right after the constructor. -/
def Deployed (s : State T) : Prop := ∃ d now views tokens, deploy d now views tokens = .ok s

/-- A state that a run from a deployment ends in. -/
def Reachable (rules : Rules T) (s : State T) : Prop := ∃ s₀ acts, Deployed s₀ ∧ Run X rules s₀ acts s

/-! ### Executing a list of actions -/

/-- The step an action takes where calls are executed with `execute`. A block earlier than the current one does not
    exist, and is skipped. -/
def stepBy (execute : Address → Call → State T → Except Err (State T)) (s : State T) : Action T → State T
  | .call sender call =>
    match execute sender.address call s with
    | .ok t => t
    | .error _ => s
  | .block time => if s.now ≤ time then { s with now := time } else s
  | .world views tokens => { s with views, tokens }

/-- The same with tokens that only return or revert. -/
def step (s : State T) (a : Action T) : State T := stepBy (exec X) s a

/-- The state after a list of actions. -/
def run (s : State T) (acts : List (Action T)) : State T := acts.foldl (step X) s

end Exec

variable {X : Tokens T} {rules rules' : Rules T} {s s₀ t : State T}

/-- The rules allow the action in the state, and it names no earlier block. -/
def Rules.Allows (rules : Rules T) (s : State T) : Action T → Prop
  | .call sender call => rules.call s sender call
  | .block time => s.now ≤ time
  | .world views tokens => rules.world s views tokens

theorem stepBy_congr {execute execute' : Address → Call → State T → Except Err (State T)} {a : Action T}
    (h : ∀ caller call, execute caller call s = execute' caller call s) : stepBy execute s a = stepBy execute' s a := by
  cases a <;> simp only [stepBy, h]

theorem step_of_ok {sender : Sender} {call : Call} (h : exec X sender.address call s = .ok t) :
    step X s (.call sender call) = t := by
  simp only [step, stepBy, h]

theorem step_of_error {sender : Sender} {call : Call} {e : Err} (h : exec X sender.address call s = .error e) :
    step X s (.call sender call) = s := by
  simp only [step, stepBy, h]

theorem step_step {a : Action T} (h : rules.Allows s a) : Step X rules s a (step X s a) := by
  cases a with
  | call sender call =>
    cases hexec : exec X sender.address call s with
    | ok t =>
      rw [step_of_ok hexec]
      exact .call hexec h
    | error e =>
      rw [step_of_error hexec]
      exact .reverted hexec
  | block time =>
    have hle : s.now ≤ time := h
    simp only [step, stepBy, if_pos hle]
    exact .block hle
  | world views tokens => exact .world h

def Rules.AllowsAll (X : Tokens T) (rules : Rules T) : State T → List (Action T) → Prop
  | _, [] => True
  | s, a :: acts => rules.Allows s a ∧ rules.AllowsAll X (step X s a) acts

theorem run_path {acts : List (Action T)} (h : rules.AllowsAll X s acts) : Run X rules s acts (run X s acts) := by
  induction acts generalizing s with
  | nil => exact .nil s
  | cons a acts ih => exact (Trail.single (step_step h.1)).append (ih h.2)

namespace Rules.AllowsAll
variable {acts acts' : List (Action T)}

theorem append (h : rules.AllowsAll X s acts) (h' : rules.AllowsAll X (run X s acts) acts') :
    rules.AllowsAll X s (acts ++ acts') := by
  induction acts generalizing s with
  | nil => exact h'
  | cons a acts ih => exact ⟨h.1, ih h.2 h'⟩

theorem take (h : rules.AllowsAll X s acts) (n : Nat) : rules.AllowsAll X s (acts.take n) := by
  induction acts generalizing s n with
  | nil => rwa [List.take_nil]
  | cons a acts ih =>
    cases n with
    | zero => exact trivial
    | succ n => exact ⟨h.1, ih h.2 n⟩

/-- Rules that ask nothing of the state are asked for each action by itself. -/
theorem of_any (h : Rules.any.AllowsAll X s acts)
    (hcalls : ∀ s sender call, .call sender call ∈ acts → rules.call s sender call)
    (hworld : ∀ s views tokens, .world views tokens ∈ acts → rules.world s views tokens) : rules.AllowsAll X s acts := by
  induction acts generalizing s with
  | nil => exact trivial
  | cons a acts ih =>
    refine ⟨?_, ih h.2 (fun s sender call hmem => hcalls s sender call (List.mem_cons_of_mem a hmem))
      fun s views tokens hmem => hworld s views tokens (List.mem_cons_of_mem a hmem)⟩
    cases a with
    | call sender call => exact hcalls s sender call List.mem_cons_self
    | block time => exact h.1
    | world views tokens => exact hworld s views tokens List.mem_cons_self

end Rules.AllowsAll

theorem Step.eq_step {a : Action T} (h : Step X rules s a t) : t = step X s a := by
  cases h with
  | call h allowed => exact (step_of_ok h).symm
  | reverted h => exact (step_of_error h).symm
  | block later => simp only [step, stepBy, if_pos later]
  | world allowed => rfl

theorem Run.eq_run {acts : List (Action T)} (h : Run X rules s acts t) : t = run X s acts := by
  refine h.invariant (I := fun acts t => t = run X s acts) rfl fun acts t a u _ ih hstep => ?_
  rw [hstep.eq_step, ih, run, run, List.foldl_append]
  rfl

theorem Step.mono (hc : ∀ s sender call, rules.call s sender call → rules'.call s sender call)
    (hw : ∀ s views tokens, rules.world s views tokens → rules'.world s views tokens) {a : Action T}
    (h : Step X rules s a t) : Step X rules' s a t := by
  cases h with
  | call h allowed => exact .call h (hc _ _ _ allowed)
  | reverted h => exact .reverted h
  | block later => exact .block later
  | world allowed => exact .world (hw _ _ _ allowed)

namespace Run

/-- What successful calls, later blocks and moves of the other contracts keep, holds at the end of a run
    that starts with it. -/
theorem invariant {I : State T → Prop} {acts : List (Action T)} (h : Run X rules s₀ acts s) (h0 : I s₀)
    (call : ∀ s t sender c, I s → rules.call s sender c → exec X sender.address c s = .ok t → I t)
    (block : ∀ s time, I s → s.now ≤ time → I { s with now := time })
    (world : ∀ s views tokens, I s → rules.world s views tokens → I { s with views, tokens }) : I s := by
  refine h.preserves h0 fun s a t hs hstep => ?_
  cases hstep with
  | call h allowed => exact call _ _ _ _ hs allowed h
  | reverted h => exact hs
  | block later => exact block _ _ hs later
  | world allowed => exact world _ _ _ hs allowed

end Run

namespace Reachable

theorem of_deployed (h : Deployed s) : Reachable X rules s := ⟨s, [], h, .nil s⟩

theorem run {acts : List (Action T)} (h : Reachable X rules s) (hrun : Run X rules s acts t) : Reachable X rules t := by
  obtain ⟨s₀, acts₀, hs₀, hrun₀⟩ := h
  exact ⟨s₀, acts₀ ++ acts, hs₀, hrun₀.append hrun⟩

theorem step {a : Action T} (h : Reachable X rules s) (hstep : Step X rules s a t) : Reachable X rules t :=
  h.run (.single hstep)

theorem mono (hc : ∀ s sender call, rules.call s sender call → rules'.call s sender call)
    (hw : ∀ s views tokens, rules.world s views tokens → rules'.world s views tokens) (h : Reachable X rules s) :
    Reachable X rules' s := by
  obtain ⟨s₀, acts, hs₀, hrun⟩ := h
  exact ⟨s₀, acts, hs₀, hrun.mono fun _ _ _ _ hstep => hstep.mono hc hw⟩

/-- The same for reachable states, where the steps may use that the state before them is reachable. -/
theorem invariant {I : State T → Prop} (h : Reachable X rules s) (deployed : ∀ s, Deployed s → I s)
    (call : ∀ s t sender c, Reachable X rules s → I s → rules.call s sender c → exec X sender.address c s = .ok t →
      I t)
    (block : ∀ s time, I s → s.now ≤ time → I { s with now := time })
    (world : ∀ s views tokens, I s → rules.world s views tokens → I { s with views, tokens }) : I s := by
  obtain ⟨s₀, acts, hs₀, hrun⟩ := h
  refine (hrun.preserves (I := fun s => Reachable X rules s ∧ I s) ⟨of_deployed hs₀, deployed s₀ hs₀⟩
    fun s a t hs hstep => ⟨hs.1.step hstep, ?_⟩).2
  obtain ⟨hr, hs⟩ := hs
  cases hstep with
  | call h allowed => exact call _ _ _ _ hr hs allowed h
  | reverted h => exact hs
  | block later => exact block _ _ hs later
  | world allowed => exact world _ _ _ hs allowed

end Reachable

/-! ### A sample deployment

Runs on fixed inputs start here: both tokens have 18 decimals, the RWA token keeps balances, and every
transfer of collateral succeeds. -/

namespace Sample

def admin : Sender := ⟨0xad, by decide⟩
def alice : Sender := ⟨0xa, by decide⟩
def bob : Sender := ⟨0xb, by decide⟩

def tokens : Tokens (Address → Nat) where
  mint _ balances dst amount := some (Function.update balances dst (balances dst + amount.toNat))
  burnFrom _ balances src amount :=
    if amount.toNat ≤ balances src then some (Function.update balances src (balances src - amount.toNat)) else none
  transferFrom _ balances _ _ _ := some balances

theorem addPrice_isSome : (Pricer.addPrice admin.address e18 500
    (Pricer.deploy admin.address admin.address)).toOption.isSome = true := by
  decide +kernel

/-- A pricer with one price: under id 1, one unit of collateral. -/
def pricer : Pricer :=
  (Pricer.addPrice admin.address e18 500 (Pricer.deploy admin.address admin.address)).toOption.get addPrice_isSome

theorem pricer_reachable : pricer.Reachable :=
  ⟨admin.address, admin.address, [(admin.address, .addPrice e18 500)], .single (Checked.eq_ok_get addPrice_isSome)⟩

/-- Nobody is blocked. -/
def views : Views where
  isBlocked _ _ := some false
  getPrice _ priceId := some (pricer.getPrice priceId)

def deployment : Deployment where
  sender := admin.address
  collateral := 0xc0
  rwa := 0xc1
  managerAdmin := admin.address
  pauser := admin.address
  assetSender := 0xc2
  feeRecipient := 0xc3
  assetRecipient := 0xc4
  minimumDepositAmount := 100
  minimumRedemptionAmount := 100
  maximumDepositAmount := 1000000
  maximumRedemptionAmount := 1000000
  blocklist := 0xc5
  rwaDecimals := 18
  collateralDecimals := 18

theorem deploy_isSome : (deploy deployment 1000 views fun _ : Address => 0).toOption.isSome = true := by
  decide +kernel

def state : State (Address → Nat) := (deploy deployment 1000 views fun _ => 0).toOption.get deploy_isSome

/-- Two deposits that are priced, minted and in part redeemed, on chain and off chain. -/
def history : List (Action (Address → Nat)) :=
  [.call admin (.grantRole .relayer admin.address),
   .call admin (.grantRole .priceIdSetter admin.address),
   .call admin (.grantRole .timestampSetter admin.address),
   .call admin (.admin (.setMintFee 100)),
   .call admin (.admin (.setRedemptionFee 200)),
   .call admin (.requestSubscriptionServicedOffchain alice.address 1000 5),
   .call bob (.requestSubscription 500),
   .call admin (.setPriceIdForDeposits [5, 1] [1, 1]),
   .call admin (.setClaimableTimestamp 1500 [5, 1]),
   .block 2000,
   .call bob (.claimMint [5, 1]),
   .call alice (.requestRedemption 400),
   .call bob (.requestRedemptionServicedOffchain 200 0xde),
   .call admin (.setPriceIdForRedemptions [1] [1]),
   .call admin (.claimRedemption [1])]

theorem state_deployed : Deployed state := ⟨deployment, 1000, views, fun _ => 0, Checked.eq_ok_get deploy_isSome⟩

theorem history_allowed : Rules.any.AllowsAll tokens state history := by
  refine ⟨trivial, trivial, trivial, trivial, trivial, trivial, trivial, trivial, trivial, ?_, trivial, trivial, trivial,
    trivial, trivial, trivial⟩
  unfold Rules.Allows
  decide +kernel

end Sample

end Usdy
