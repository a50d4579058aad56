import Gridnet.Counters
import Gridnet.LedgerFlow
import Gridnet.Verdicts

/-! The nonces of the domains as counters, and what charging an issuer does to them. -/

namespace Gridnet

/-- The nonces of the domains, as counters. -/
def Ledger.nonces (l : Ledger) : Counters Bytes := fun a => (l a).map fun d => d.mNonce.toNat

/-- Scripts neither lose a domain nor change a nonce. -/
def ScriptsKeepNonces (S : NodeServices) : Prop :=
  ∀ call (l : Ledger), l.KeepsNonces (S.processScript call l).2

/-- The domain at `a` comes to have a nonce, and no other nonce changes. -/
structure RaisesNonce (l l' : Ledger) (a : Bytes) (nonce : UInt64) : Prop where
  raised : ∃ d, l' a = some d ∧ d.mNonce = nonce
  others : ∀ b d, b ≠ a → l b = some d → ∃ d', l' b = some d' ∧ d'.mNonce = d.mNonce

section Nonces

variable {S : NodeServices} {l l' : Ledger} {a : Bytes} {nonce : UInt64}

theorem Ledger.nonces_eq_some {d : StateDomain} (hd : l a = some d) :
    l.nonces a = some d.mNonce.toNat := by
  rw [nonces, hd, Option.map_some]

theorem Ledger.KeepsNonces.grow (hkeeps : l.KeepsNonces l') : l.nonces.Grow l'.nonces := by
  intro a k hk
  obtain ⟨d, hd, rfl⟩ := Option.map_eq_some_iff.mp hk
  obtain ⟨d', hd', hnonce⟩ := hkeeps a d hd
  refine ⟨_, nonces_eq_some hd', ?_⟩
  rw [hnonce]

theorem RaisesNonce.grow (hraises : RaisesNonce l l' a nonce) {d : StateDomain} (hd : l a = some d)
    (hless : d.mNonce.toNat < nonce.toNat) : l.nonces.Grow l'.nonces := by
  intro b k hk
  obtain ⟨e, he, rfl⟩ := Option.map_eq_some_iff.mp hk
  by_cases hb : b = a
  · subst hb
    obtain ⟨d', hd', rfl⟩ := hraises.raised
    obtain rfl := Option.some.inj (hd.symm.trans he)
    exact ⟨_, Ledger.nonces_eq_some hd', hless.le⟩
  · obtain ⟨d', hd', hnonce⟩ := hraises.others b e hb he
    refine ⟨_, Ledger.nonces_eq_some hd', ?_⟩
    rw [hnonce]

section Processing

variable {t : PoolTransaction} {keyHeight : UInt64} {receiptID : Bytes} {existingReceipt : Option CReceipt}
  {existingBlock : Option CBlockProposal} {excuseERGusage excused : Bool} {confirmedDomainID : Bytes} {issuerSD : StateDomain}
  {processed : Processed}

/-- Processing a transaction keeps the nonces. -/
theorem changed_keepsNonces (hscripts : ScriptsKeepNonces S)
    (hcarry : carryOut S l t keyHeight receiptID existingReceipt existingBlock excuseERGusage
      (judgeIssuer S t keyHeight excused false confirmedDomainID issuerSD) = .ok processed) :
    l.KeepsNonces (processed.changed.getD l) := by
  rcases changed_of_judgeIssuer hcarry with hsame | ⟨call, hchanged⟩
  · rw [hsame]
    exact Ledger.KeepsNonces.refl _
  · rw [hchanged]
    exact hscripts call l

/-- So it does where a failed one is rolled back. -/
theorem base_keepsNonces (hscripts : ScriptsKeepNonces S)
    (hcarry : carryOut S l t keyHeight receiptID existingReceipt existingBlock excuseERGusage
      (judgeIssuer S t keyHeight excused false confirmedDomainID issuerSD) = .ok processed) :
    l.KeepsNonces (processed.base l) := by
  unfold Processed.base
  split_ifs
  · exact Ledger.KeepsNonces.refl _
  · exact changed_keepsNonces hscripts hcarry

end Processing

/-- Charging raises the nonce of the issuer by one, whatever was used. -/
theorem raisesNonce_of_charged {l₁ : Ledger} {issuerSD : StateDomain} (hkeeps : l.KeepsNonces l₁)
    (ha : Ledger.addressOf a = a) (hissuer : l a = some issuerSD) {t : PoolTransaction}
    {receipt : CReceipt} {receiptID : Bytes} {enforceFailure : Bool} {proposal : CBlockProposal}
    (hcharged : LedgerFlow.chargeOver S l₁ t receipt receiptID enforceFailure proposal a =
      .ok (some l')) : RaisesNonce l l' a (issuerSD.mNonce + 1) := by
  obtain ⟨domain, hdomain, hnonce⟩ := hkeeps a issuerSD hissuer
  have hfound : l₁.findByID a = some domain := by rw [Ledger.findByID, ha, hdomain]
  obtain ⟨found, charged, receiptIDs, TXNibbles, hlookup, hchange, rfl⟩ :=
    LedgerFlow.chargeOver_spec hcharged
  obtain rfl := Option.some.inj (hfound.symm.trans hlookup)
  refine ⟨⟨{ charged with receiptIDs, TXNibbles }, ?_, ?_⟩, ?_⟩
  · calc
      l₁.save a { charged with receiptIDs, TXNibbles } a =
          l₁.save a { charged with receiptIDs, TXNibbles } (Ledger.addressOf a) := by rw [ha]
      _ = some { charged with receiptIDs, TXNibbles } := Ledger.save_self ..
  · calc
      charged.mNonce = domain.incNonce.mNonce := StateDomain.changeBalanceBy_mNonce hchange
      _ = issuerSD.mNonce + 1 := by rw [StateDomain.incNonce_mNonce, hnonce]
  · intro b d hb hd
    rw [Ledger.save_of_ne _ _ (by rwa [ha])]
    exact hkeeps b d hd

end Nonces

theorem sample_scriptsKeepNonces : ScriptsKeepNonces sampleServices :=
  fun _ l => Ledger.KeepsNonces.refl l

end Gridnet
