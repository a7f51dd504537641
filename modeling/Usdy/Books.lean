import Usdy.Lib.Trail
import Usdy.State

/-! The books: what each entry of the log says about the ledgers. Posting an entry has the conditions
    under which the manager emits it, and leaves the ledgers as the manager does. The log of a run, read
    as postings from the empty ledgers, is the abstract account of deposits and redemptions: who was
    credited, what was minted against it and what was settled. -/

namespace Usdy
open Function

/-! ### Reading the log -/

/-- A deposit the log records: on chain, or serviced off chain. -/
structure Credit where
  depositId : Bytes32
  user : Address
  amount : Uint256
  deriving DecidableEq

namespace Event

def credit : Event → Option Credit
  | .mintRequested user depositId _ depositAmountAfterFee _ => some ⟨depositId, user, depositAmountAfterFee⟩
  | .subscriptionRequestedServicedOffChain user _ depositAmountAfterFee _ offChainDestination =>
    some ⟨offChainDestination, user, depositAmountAfterFee⟩
  | _ => none

/-- The deposit whose record an event is about. -/
def depositId : Event → Option Bytes32
  | .mintRequested _ depositId _ _ _ => some depositId
  | .subscriptionRequestedServicedOffChain _ _ _ _ offChainDestination => some offChainDestination
  | .mintCompleted _ depositId _ _ _ _ => some depositId
  | .priceIdSetForDeposit depositId _ => some depositId
  | .depositorOverwritten depositId _ _ _ _ _ _ => some depositId
  | _ => none

def Credits (depositId : Bytes32) (e : Event) : Prop := ∃ user amount, e.credit = some ⟨depositId, user, amount⟩

theorem Credits.cases {depositId : Bytes32} {e : Event} (h : e.Credits depositId) :
    (∃ user amount after fee, e = .mintRequested user depositId amount after fee) ∨
      ∃ user amount after fee, e = .subscriptionRequestedServicedOffChain user amount after fee depositId := by
  obtain ⟨user, amount, h⟩ := h
  cases e <;> simp only [credit, Option.some.injEq, Credit.mk.injEq, reduceCtorEq] at h
  · obtain ⟨rfl, -, -⟩ := h
    exact .inl ⟨_, _, _, _, rfl⟩
  · obtain ⟨rfl, -, -⟩ := h
    exact .inr ⟨_, _, _, _, rfl⟩

def Mints (depositId : Bytes32) : Event → Prop
  | .mintCompleted _ id _ _ _ _ => id = depositId
  | _ => False

instance {depositId : Bytes32} {e : Event} : Decidable (e.Mints depositId) := by
  unfold Mints
  split <;> infer_instance

theorem Mints.eq {depositId : Bytes32} {e : Event} (h : e.Mints depositId) :
    ∃ user out amount price priceId, e = .mintCompleted user depositId out amount price priceId := by
  cases e with
  | mintCompleted user id out amount price priceId =>
    obtain rfl : id = depositId := h
    exact ⟨user, out, amount, price, priceId, rfl⟩
  | _ => cases h

/-- The price id other than 0 that an event sets for a deposit. -/
def priceSet (depositId : Bytes32) : Event → Option Uint256
  | .priceIdSetForDeposit id priceId => if id = depositId ∧ priceId ≠ 0 then some priceId else none
  | _ => none

def creditedTo (user : Address) (e : Event) : Nat :=
  match e.credit with
  | some c => if c.user = user then c.amount.toNat else 0
  | none => 0

/-- What an event mints against the deposits of a user. -/
def mintedAgainst (user : Address) : Event → Nat
  | .mintCompleted owner _ _ collateralAmountDeposited _ _ =>
    if owner = user then collateralAmountDeposited.toNat else 0
  | _ => 0

/-- The event credits an off-chain deposit proof, for a user other than the zero address. -/
def CreditsProof (offChainDestination : Bytes32) : Event → Prop
  | .subscriptionRequestedServicedOffChain user _ _ _ destination => destination = offChainDestination ∧ user ≠ 0
  | _ => False

instance {offChainDestination : Bytes32} {e : Event} : Decidable (e.CreditsProof offChainDestination) := by
  unfold CreditsProof
  split <;> infer_instance

theorem CreditsProof.eq {d : Bytes32} {e : Event} (h : e.CreditsProof d) :
    ∃ user amount after fee, e = .subscriptionRequestedServicedOffChain user amount after fee d ∧ user ≠ 0 := by
  cases e with
  | subscriptionRequestedServicedOffChain user amount after fee destination =>
    obtain ⟨rfl, hu⟩ := h
    exact ⟨user, amount, after, fee, rfl, hu⟩
  | _ => cases h

/-- The redemption whose record an event is about. -/
def redeemerId : Event → Option Bytes32
  | .redemptionRequested _ redemptionId _ => some redemptionId
  | .redemptionCompleted _ redemptionId _ _ _ => some redemptionId
  | .priceIdSetForRedemption redemptionId _ => some redemptionId
  | .redeemerOverwritten redemptionId _ _ _ _ _ _ => some redemptionId
  | _ => none

def Settles (redemptionId : Bytes32) : Event → Prop
  | .redemptionCompleted _ id _ _ _ => id = redemptionId
  | _ => False

theorem Settles.eq {d : Bytes32} {e : Event} (h : e.Settles d) :
    ∃ user burned paid price, e = .redemptionCompleted user d burned paid price := by
  cases e with
  | redemptionCompleted user id burned paid price =>
    obtain rfl : id = d := h
    exact ⟨user, burned, paid, price, rfl⟩
  | _ => cases h

/-- A settlement of an empty record: for nobody, of nothing, and paying nothing. -/
def SettlesNothing : Event → Prop
  | .redemptionCompleted user _ rwaAmountRequested collateralAmountReturned _ =>
    user = 0 ∧ rwaAmountRequested = 0 ∧ collateralAmountReturned = 0
  | _ => False

def requestedBy (user : Address) : Event → Nat
  | .redemptionRequested owner _ rwaAmountIn => if owner = user then rwaAmountIn.toNat else 0
  | _ => 0

def settledFor (user : Address) : Event → Nat
  | .redemptionCompleted owner _ rwaAmountRequested _ _ => if owner = user then rwaAmountRequested.toNat else 0
  | _ => 0

/-- The id that a redemption request takes from the counter. -/
def redemptionId : Event → Option Bytes32
  | .redemptionRequested _ redemptionId _ => some redemptionId
  | .redemptionRequestedServicedOffChain _ redemptionId _ _ => some redemptionId
  | _ => none

/-- The call to the RWA token that goes with an event. -/
def rwaCall : Event → Option TokenCall
  | .mintCompleted user _ rwaAmountOut _ _ _ => some (.mint user rwaAmountOut)
  | .redemptionRequested user _ rwaAmountIn => some (.burnFrom user rwaAmountIn)
  | .redemptionRequestedServicedOffChain user _ rwaTokenAmountIn _ => some (.burnFrom user rwaTokenAmountIn)
  | _ => none

/-- Whether the event is about a deposit or a redemption. -/
def posted : Event → Bool
  | .mintRequested .. | .subscriptionRequestedServicedOffChain .. | .mintCompleted .. | .redemptionRequested ..
  | .redemptionRequestedServicedOffChain .. | .redemptionCompleted .. | .priceIdSetForDeposit ..
  | .priceIdSetForRedemption .. | .depositorOverwritten .. | .redeemerOverwritten ..
  | .claimableTimestampSet .. => true
  | _ => false

end Event

def TokenCall.isRwa : TokenCall → Bool
  | .transferFrom .. => false
  | _ => true

/-- The token calls of the list succeed one after the other. -/
abbrev Tokens.Moves {T : Type} (X : Tokens T) (views : Views) : T → List TokenCall → T → Prop :=
  Trail fun tokens call tokens' => X.exec views tokens call = some tokens'

/-! ### Postings -/

/-- `Posts m quote g e h`: where the decimals multiplier is `m` and the pricer answers `quote`, the entry
    `e` takes the ledgers from `g` to `h`. -/
inductive Posts (m : Uint256) (quote : Uint256 → Option Uint256) : Ledgers → Entry → Ledgers → Prop
  | mintRequested {g : Ledgers} {time : Uint256} {user : Address} {amount after fee counter : Uint256}
      (known : user ≠ 0) (split : after.toNat + fee.toNat = amount.toNat)
      (next : counter.toNat = g.subscriptionRequestCounter.toNat + 1) :
      Posts m quote g ⟨time, .mintRequested user g.subscriptionRequestCounter amount after fee⟩
        { g with
          subscriptionRequestCounter := counter
          depositIdToDepositor := update g.depositIdToDepositor g.subscriptionRequestCounter ⟨user, after, 0⟩ }
  | subscriptionRequestedServicedOffChain {g : Ledgers} {time : Uint256} {user : Address}
      {amount after fee : Uint256} {offChainDestination : Bytes32}
      (free : (g.depositIdToDepositor offChainDestination).user = 0)
      (split : after.toNat + fee.toNat = amount.toNat) :
      Posts m quote g ⟨time, .subscriptionRequestedServicedOffChain user amount after fee offChainDestination⟩
        { g with depositIdToDepositor := update g.depositIdToDepositor offChainDestination ⟨user, after, 0⟩ }
  | mintCompleted {g : Ledgers} {time : Uint256} {depositId : Bytes32} {out price : Uint256}
      (set : g.depositIdToClaimableTimestamp depositId ≠ 0)
      (passed : g.depositIdToClaimableTimestamp depositId ≤ time)
      (priced : (g.depositIdToDepositor depositId).priceId ≠ 0)
      (quoted : quote (g.depositIdToDepositor depositId).priceId = some price) (positive : price ≠ 0)
      (owed : out.toNat =
        (g.depositIdToDepositor depositId).amountDepositedMinusFees.toNat * m.toNat * 10 ^ 18 / price.toNat) :
      Posts m quote g
        ⟨time, .mintCompleted (g.depositIdToDepositor depositId).user depositId out
          (g.depositIdToDepositor depositId).amountDepositedMinusFees price
          (g.depositIdToDepositor depositId).priceId⟩
        { g with
          depositIdToDepositor := update g.depositIdToDepositor depositId 0
          depositIdToClaimableTimestamp := update g.depositIdToClaimableTimestamp depositId 0 }
  | redemptionRequested {g : Ledgers} {time : Uint256} {user : Address} {amount counter : Uint256}
      (known : user ≠ 0) (next : counter.toNat = g.redemptionRequestCounter.toNat + 1) :
      Posts m quote g ⟨time, .redemptionRequested user g.redemptionRequestCounter amount⟩
        { g with
          redemptionRequestCounter := counter
          redemptionIdToRedeemer := update g.redemptionIdToRedeemer g.redemptionRequestCounter ⟨user, amount, 0⟩ }
  | redemptionRequestedServicedOffChain {g : Ledgers} {time : Uint256} {user : Address} {amount counter : Uint256}
      {offChainDestination : Bytes32} (next : counter.toNat = g.redemptionRequestCounter.toNat + 1) :
      Posts m quote g
        ⟨time, .redemptionRequestedServicedOffChain user g.redemptionRequestCounter amount offChainDestination⟩
        { g with redemptionRequestCounter := counter }
  | redemptionCompleted {g : Ledgers} {time : Uint256} {redemptionId : Bytes32} {paid price : Uint256}
      (priced : (g.redemptionIdToRedeemer redemptionId).priceId ≠ 0)
      (quoted : quote (g.redemptionIdToRedeemer redemptionId).priceId = some price)
      (due : paid.toNat ≤
        (g.redemptionIdToRedeemer redemptionId).amountRwaTokenBurned.toNat * price.toNat / 10 ^ 18 / m.toNat) :
      Posts m quote g
        ⟨time, .redemptionCompleted (g.redemptionIdToRedeemer redemptionId).user redemptionId
          (g.redemptionIdToRedeemer redemptionId).amountRwaTokenBurned paid price⟩
        { g with redemptionIdToRedeemer := update g.redemptionIdToRedeemer redemptionId 0 }
  | priceIdSetForDeposit {g : Ledgers} {time : Uint256} {depositId : Bytes32} {priceId : Uint256}
      (known : (g.depositIdToDepositor depositId).user ≠ 0)
      (unset : (g.depositIdToDepositor depositId).priceId = 0) :
      Posts m quote g ⟨time, .priceIdSetForDeposit depositId priceId⟩
        { g with
          depositIdToDepositor :=
            update g.depositIdToDepositor depositId { g.depositIdToDepositor depositId with priceId } }
  | priceIdSetForRedemption {g : Ledgers} {time : Uint256} {redemptionId : Bytes32} {priceId : Uint256}
      (unset : (g.redemptionIdToRedeemer redemptionId).priceId = 0) :
      Posts m quote g ⟨time, .priceIdSetForRedemption redemptionId priceId⟩
        { g with
          redemptionIdToRedeemer :=
            update g.redemptionIdToRedeemer redemptionId { g.redemptionIdToRedeemer redemptionId with priceId } }
  | depositorOverwritten {g : Ledgers} {time : Uint256} {depositId : Bytes32} {user : Address}
      {amount priceId : Uint256} :
      Posts m quote g
        ⟨time, .depositorOverwritten depositId (g.depositIdToDepositor depositId).user user
          (g.depositIdToDepositor depositId).priceId priceId
          (g.depositIdToDepositor depositId).amountDepositedMinusFees amount⟩
        { g with depositIdToDepositor := update g.depositIdToDepositor depositId ⟨user, amount, priceId⟩ }
  | redeemerOverwritten {g : Ledgers} {time : Uint256} {redemptionId : Bytes32} {user : Address}
      {amount priceId : Uint256} :
      Posts m quote g
        ⟨time, .redeemerOverwritten redemptionId (g.redemptionIdToRedeemer redemptionId).user user
          (g.redemptionIdToRedeemer redemptionId).priceId priceId
          (g.redemptionIdToRedeemer redemptionId).amountRwaTokenBurned amount⟩
        { g with redemptionIdToRedeemer := update g.redemptionIdToRedeemer redemptionId ⟨user, amount, priceId⟩ }
  | claimableTimestampSet {g : Ledgers} {time claimTimestamp : Uint256} {depositId : Bytes32}
      (later : time ≤ claimTimestamp) :
      Posts m quote g ⟨time, .claimableTimestampSet claimTimestamp depositId⟩
        { g with
          depositIdToClaimableTimestamp := update g.depositIdToClaimableTimestamp depositId claimTimestamp }
  | other {g : Ledgers} {e : Entry} (h : e.event.posted = false) : Posts m quote g e g

theorem Posts.requested_id {m : Uint256} {quote : Uint256 → Option Uint256} {g h : Ledgers} {time : Uint256}
    {user : Address} {d : Bytes32} {amount after fee : Uint256}
    (hp : Posts m quote g ⟨time, .mintRequested user d amount after fee⟩ h) : d = g.subscriptionRequestCounter := by
  cases hp with
  | mintRequested known split next => rfl
  | other h => cases h

theorem Posts.serviced_free {m : Uint256} {quote : Uint256 → Option Uint256} {g h : Ledgers} {time : Uint256}
    {user : Address} {d : Bytes32} {amount after fee : Uint256}
    (hp : Posts m quote g ⟨time, .subscriptionRequestedServicedOffChain user amount after fee d⟩ h) :
    (g.depositIdToDepositor d).user = 0 := by
  cases hp with
  | subscriptionRequestedServicedOffChain free split => exact free
  | other h => cases h

theorem Posts.mint_inv {m : Uint256} {quote : Uint256 → Option Uint256} {g h : Ledgers} {time : Uint256}
    {user : Address} {d : Bytes32} {out amount price priceId : Uint256}
    (hp : Posts m quote g ⟨time, .mintCompleted user d out amount price priceId⟩ h) :
    g.depositIdToClaimableTimestamp d ≠ 0 ∧ g.depositIdToClaimableTimestamp d ≤ time ∧
      g.depositIdToDepositor d = ⟨user, amount, priceId⟩ ∧ priceId ≠ 0 ∧ quote priceId = some price ∧ price ≠ 0 ∧
      out.toNat = amount.toNat * m.toNat * 10 ^ 18 / price.toNat := by
  cases hp with
  | mintCompleted set passed priced quoted positive owed => exact ⟨set, passed, rfl, priced, quoted, positive, owed⟩
  | other h => cases h

end Usdy
