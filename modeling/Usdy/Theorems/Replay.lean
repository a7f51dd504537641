import Usdy.Theorems.Log

/-! What an indexer keeps: the records of deposits and redemptions, rebuilt from the events of the manager
    alone. An event carries all that it changes in them, so the fold of the log is what the ledgers hold. -/

namespace Usdy
open Function

variable {T : Type} {X : Tokens T} {rules : Rules T} {s : State T}

/-- The three mappings of the ledgers, without the counters. -/
structure Records where
  depositIdToDepositor : Bytes32 → Depositor
  redemptionIdToRedeemer : Bytes32 → Redeemer
  depositIdToClaimableTimestamp : Bytes32 → Uint256

/-- The records among the ledgers. -/
def Ledgers.records (g : Ledgers) : Records :=
  ⟨g.depositIdToDepositor, g.redemptionIdToRedeemer, g.depositIdToClaimableTimestamp⟩

namespace Records

/-- No record. -/
def empty : Records := ⟨fun _ => 0, fun _ => 0, fun _ => 0⟩

/-- The record of a deposit is written. -/
def setDepositor (r : Records) (depositId : Bytes32) (depositor : Depositor) : Records :=
  { r with depositIdToDepositor := update r.depositIdToDepositor depositId depositor }

/-- The record of a redemption is written. -/
def setRedeemer (r : Records) (redemptionId : Bytes32) (redeemer : Redeemer) : Records :=
  { r with redemptionIdToRedeemer := update r.redemptionIdToRedeemer redemptionId redeemer }

/-- The claimable timestamp of a deposit is written. -/
def setTimestamp (r : Records) (depositId : Bytes32) (timestamp : Uint256) : Records :=
  { r with depositIdToClaimableTimestamp := update r.depositIdToClaimableTimestamp depositId timestamp }

/-- What an event says about the records, read from its arguments. -/
def replay (r : Records) : Event → Records
  | .mintRequested user depositId _ depositAmountAfterFee _ => r.setDepositor depositId ⟨user, depositAmountAfterFee, 0⟩
  | .subscriptionRequestedServicedOffChain user _ depositAmountAfterFee _ offChainDestination =>
    r.setDepositor offChainDestination ⟨user, depositAmountAfterFee, 0⟩
  | .priceIdSetForDeposit depositIdSet priceIdSet =>
    r.setDepositor depositIdSet { r.depositIdToDepositor depositIdSet with priceId := priceIdSet }
  | .depositorOverwritten depositId _ newDepositor _ newPriceId _ newDepositAmount =>
    r.setDepositor depositId ⟨newDepositor, newDepositAmount, newPriceId⟩
  | .mintCompleted _ depositId _ _ _ _ => (r.setDepositor depositId 0).setTimestamp depositId 0
  | .claimableTimestampSet claimTimestamp depositId => r.setTimestamp depositId claimTimestamp
  | .redemptionRequested user redemptionId rwaAmountIn => r.setRedeemer redemptionId ⟨user, rwaAmountIn, 0⟩
  | .priceIdSetForRedemption redemptionIdSet priceIdSet =>
    r.setRedeemer redemptionIdSet { r.redemptionIdToRedeemer redemptionIdSet with priceId := priceIdSet }
  | .redeemerOverwritten redemptionId _ newRedeemer _ newPriceId _ newRWATokenAmountBurned =>
    r.setRedeemer redemptionId ⟨newRedeemer, newRWATokenAmountBurned, newPriceId⟩
  | .redemptionCompleted _ redemptionId _ _ _ => r.setRedeemer redemptionId 0
  | _ => r

theorem replay_of_not_posted (r : Records) {e : Event} (h : e.posted = false) : r.replay e = r := by
  cases e with
  | mintRequested | subscriptionRequestedServicedOffChain | mintCompleted | redemptionRequested | redemptionCompleted
  | priceIdSetForDeposit | priceIdSetForRedemption | depositorOverwritten | redeemerOverwritten
  | claimableTimestampSet => cases h
  | _ => rfl

end Records

theorem Posts.records {m : Uint256} {quote : Uint256 → Option Uint256} {g h : Ledgers} {e : Entry}
    (hp : Posts m quote g e h) : h.records = g.records.replay e.event := by
  cases hp with
  | other hposted => exact (Records.replay_of_not_posted g.records hposted).symm
  | _ => rfl

/-- Folding the events of any run from empty records yields the records of the state it reaches. -/
theorem log_determines_records (h : Reachable X rules s) :
    s.records = (s.events.map (·.event)).foldl Records.replay .empty := by
  have hposts := h.posts (G := fun _ => True) (fun _ _ => trivial) fun _ _ _ _ _ _ => trivial
  rw [List.foldl_map]
  refine hposts.eq_foldl (f := Ledgers.records) (g := fun r e => r.replay e.event) ?_
  rintro g e g' ⟨⟨quote, hp⟩, -⟩
  exact hp.records

theorem log_determines_records_history :
    (run Sample.tokens Sample.state Sample.history).records =
      ((run Sample.tokens Sample.state Sample.history).events.map (·.event)).foldl Records.replay .empty := by
  exact log_determines_records ((Reachable.of_deployed Sample.state_deployed).run (run_path Sample.history_allowed))

end Usdy
