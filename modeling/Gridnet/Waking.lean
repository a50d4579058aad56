import Gridnet.PendingMarks

/-! Whether deferred transactions are woken, and not lost. A turn wakes the transactions that name the charged account
as their issuer. Those are the ones that are due exactly where the issuers tell the accounts; and the first loop marks
what it defers as processed, which the second does not. -/

namespace Gridnet

/-! ### Waking -/

/-- Nothing is decided about the transaction yet. -/
structure Undecided (tx : PoolTransaction) : Prop where
  unprocessed : tx.HotProperties.markedAsProcessed = false
  kept : tx.HotProperties.markedForDeletion = false

/-- It waits for its trigger, undecided. -/
structure Deferred (tx : PoolTransaction) : Prop extends Undecided tx where
  waits : tx.HotProperties.triggerRequired = true

/-- It waits for its trigger. -/
structure Waiting (tx : PoolTransaction) : Prop where
  waits : tx.HotProperties.triggerRequired = true
  valid : tx.HotProperties.markedAsInvalid = false

section Waking

variable (S : NodeServices) {DB : Type} (T : LedgerTrie DB)

/-- A transaction is due once `tx` was charged to account `a`: it is of that account, with a nonce above the one that
the account has now. -/
def IsDue (l : Ledger) (a : Bytes) (tx other : PoolTransaction) : Prop :=
  accountOf S l other = some a ∧ tx.mNonce < other.mNonce

/-- The turn is on transaction `tx` of the pool, and charges account `a` for it. -/
def Charges (turn : PendingTurn DB) (tx : PoolTransaction) (a : Bytes) : Prop :=
  turn.before.mMemPool[turn.input.pointer]? = some tx ∧
    Fires S (turn.before.block.manager.ledger T) turn.before.block.proposal turn.input tx a

/-- A turn that defers the early and wakes the due: an early transaction comes to wait, undecided; when an account is
charged, those of the waiting transactions that are due can be taken up again, and no other is woken. -/
structure WakesRightly (turn : PendingTurn DB) : Prop where
  deferred : ∀ tx, turn.before.mMemPool[turn.input.pointer]? = some tx → Undecided tx →
    Early S (turn.before.block.manager.ledger T) tx →
      ∃ tx', turn.after.mMemPool[turn.input.pointer]? = some tx' ∧ Deferred tx'
  woken : ∀ tx a, Charges S T turn tx a → ∀ j other, j ≠ turn.input.pointer →
    turn.before.mMemPool[j]? = some other → Waiting other →
      (IsDue S (turn.before.block.manager.ledger T) a tx other →
        ∃ other', turn.after.mMemPool[j]? = some other' ∧ Eligible true [] other') ∧
      (¬IsDue S (turn.before.block.manager.ledger T) a tx other → turn.after.mMemPool[j]? = some other)
  untouched : (∀ tx a, ¬Charges S T turn tx a) → ∀ j, j ≠ turn.input.pointer →
    turn.after.mMemPool[j]? = turn.before.mMemPool[j]?

/-- The first loop of a call that marks meets no early transaction; and when an account is charged, the waiting
transactions that name it as their issuer are those that are due. -/
structure IssuersTellDue (turn : PendingTurn DB) : Prop where
  timely : turn.input.again = false → turn.input.markAsProcessed = true → ∀ tx,
    turn.before.mMemPool[turn.input.pointer]? = some tx → Undecided tx →
      ¬Early S (turn.before.block.manager.ledger T) tx
  issuers : ∀ tx a, Charges S T turn tx a → ∀ j other, j ≠ turn.input.pointer →
    turn.before.mMemPool[j]? = some other → Waiting other →
      (other.mIssuer = a ↔ IsDue S (turn.before.block.manager.ledger T) a tx other)

variable {S T} {a b : Bytes} {tx other : PoolTransaction} {l : Ledger} {proposal : CBlockProposal} {pick : Pick}

instance : Decidable (IsDue S l a tx other) := inferInstanceAs (Decidable (_ ∧ _))

theorem Fires.unique (ha : Fires S l proposal pick tx a) (hb : Fires S l proposal pick tx b) : a = b := by
  obtain ⟨-, processed, l₁, hprocess, -, rfl, -⟩ := ha
  obtain ⟨-, other, l₂, hother, -, rfl, -⟩ := hb
  obtain rfl := Except.ok.inj (hprocess.symm.trans hother)
  rfl

/-- An early transaction is not charged. -/
theorem Early.not_fires (hearly : Early S l tx) : ¬Fires S l proposal pick tx a := by
  rintro ⟨-, processed, l', hprocess, hkept, -⟩
  obtain ⟨-, hdiscard, -⟩ := processed_of_early hearly hprocess
  exact Bool.false_ne_true (hkept.symm.trans hdiscard)

/-- A waiting transaction is woken by the trigger of the account that it names. -/
theorem Waiting.eligible_untrigger (hwaiting : Waiting other) :
    Eligible true [] (untrigger a other) ↔ other.mIssuer = a := by
  by_cases hissuer : other.mIssuer = a
  · rw [untrigger, if_pos ⟨hwaiting.waits, hissuer⟩]
    exact iff_of_true ⟨rfl, hwaiting.valid, fun _ => rfl, fun hne => absurd rfl hne⟩ hissuer
  · rw [untrigger_of_not fun h => hissuer h.2]
    refine iff_of_false (fun heligible => ?_) hissuer
    exact Bool.false_ne_true ((heligible.untriggered rfl).symm.trans hwaiting.waits)

theorem Waiting.untrigger_eq_self (hwaiting : Waiting other) : untrigger a other = other ↔ other.mIssuer ≠ a := by
  by_cases hissuer : other.mIssuer = a
  · refine iff_of_false (fun hsame => ?_) (not_not_intro hissuer)
    have heligible := hwaiting.eligible_untrigger.mpr hissuer
    rw [hsame] at heligible
    exact Bool.false_ne_true ((heligible.untriggered rfl).symm.trans hwaiting.waits)
  · exact iff_of_true (untrigger_of_not fun h => hissuer h.2) hissuer

theorem Waiting.untrigger_iff (hwaiting : Waiting other) {isDue : Prop} :
    ((isDue → Eligible true [] (untrigger a other)) ∧ (¬isDue → untrigger a other = other)) ↔
      (other.mIssuer = a ↔ isDue) := by
  rw [hwaiting.eligible_untrigger, hwaiting.untrigger_eq_self]
  constructor
  · rintro ⟨hwakes, hleaves⟩
    exact ⟨fun hissuer => by_contra fun hnot => hleaves hnot hissuer, hwakes⟩
  · intro hissuer
    exact ⟨hissuer.mpr, fun hnot hsame => hnot (hissuer.mp hsame)⟩

end Waking

/-! ### Turns -/

section Turns

variable {S : NodeServices} {DB : Type} {T : LedgerTrie DB} {s s' : PendingState (TransactionManager DB)} {pick : Pick}
  {o : Option TurnEnd} {tx : PoolTransaction}

/-- The triggers that a turn fires. -/
def firedBy (s s' : PendingState (TransactionManager DB)) : List Bytes :=
  s'.block.issuersWithSuccessfulTx.drop s.block.issuersWithSuccessfulTx.length

/-- A turn on a transaction of the pool. -/
theorem takeUp_effect (hT : T.Documented) (hongoing : FormedBlock.Ongoing T s.block)
    (hturn : takeUp S (managerCalls S T) s pick = .ok (o, s')) (htx : s.mMemPool[pick.pointer]? = some tx) :
    ∃ tx', PendingEffect S pick (s.block.manager.ledger T) s.block s'.block tx tx' ∧
      FormedBlock.Ongoing T s'.block ∧
      s'.mMemPool[pick.pointer]? = some (tx'.ownMarks (firedBy s s')) ∧
      ((∃ a, Fires S (s.block.manager.ledger T) s.block.proposal pick tx a ∧ firedBy s s' = [a]) ∨
        (∀ a, ¬Fires S (s.block.manager.ledger T) s.block.proposal pick tx a) ∧ firedBy s s' = []) := by
  obtain ⟨ending, tx', hresult, -, hown⟩ := takeUp_own hturn htx
  obtain ⟨heffect, hongoing'⟩ := turn_effect_manager hT hongoing hresult
  obtain ⟨fired, hissuers, hfired⟩ := heffect.fired
  have hdrop : firedBy s s' = fired := by rw [firedBy, hissuers, List.drop_left]
  rw [hdrop]
  rw [← firedBy, hdrop] at hown
  exact ⟨tx', heffect, hongoing', hown, hfired⟩

/-- A turn on a pointer that is not of the pool does nothing. -/
theorem takeUp_none (hturn : takeUp S (managerCalls S T) s pick = .ok (o, s'))
    (htx : s.mMemPool[pick.pointer]? = none) : s' = s := by
  unfold takeUp at hturn
  rw [htx] at hturn
  cases hturn
  rfl

/-- Outside the first loop of a call that marks, what is deferred stays undecided, and there only. -/
theorem PendingEffect.deferred_iff {l : Ledger} {tx' : PoolTransaction} {st st' : BlockState (TransactionManager DB)}
    (heffect : PendingEffect S pick l st st' tx tx') (hundecided : Undecided tx) (hearly : Early S l tx) :
    Deferred tx' ↔ ¬(pick.again = false ∧ pick.markAsProcessed = true) := by
  obtain ⟨hmarks, -⟩ := heffect.early hearly
  constructor
  · rintro hdeferred ⟨hfirst, hmark⟩
    have hprocessed := hdeferred.unprocessed
    rw [hmarks, hfirst, hmark] at hprocessed
    cases hprocessed
  · intro hnot
    refine ⟨⟨?_, ?_⟩, ?_⟩
    · rw [hmarks]
      dsimp only
      rw [hundecided.unprocessed, Bool.or_false, Bool.and_eq_false_iff]
      by_cases hfirst : pick.again = false
      · exact .inr (Bool.eq_false_iff.mpr fun hmark => hnot ⟨hfirst, hmark⟩)
      · exact .inl (by simpa using hfirst)
    · rw [hmarks]
      exact hundecided.kept
    · rw [hmarks]

end Turns

section Rightly

variable {S : NodeServices} {DB : Type} {T : LedgerTrie DB} {turn : PendingTurn DB} {o : Option TurnEnd}

theorem PoolTransaction.ownMarks_nil (tx : PoolTransaction) : tx.ownMarks [] = tx := rfl

/-- Where nobody is charged, nothing else in the pool is touched. -/
theorem others_of_firedBy_nil (hturn : takeUp S (managerCalls S T) turn.before turn.input = .ok (o, turn.after))
    (hfired : firedBy turn.before turn.after = []) {j : ℕ} (hj : j ≠ turn.input.pointer) :
    turn.after.mMemPool[j]? = turn.before.mMemPool[j]? := by
  rw [takeUp_others hturn hj, ← firedBy, hfired]
  exact Option.map_id'

/-- A turn charges an account exactly where it fires its trigger. -/
theorem charges_iff_firedBy (hT : T.Documented) (hongoing : FormedBlock.Ongoing T turn.before.block)
    (hturn : takeUp S (managerCalls S T) turn.before turn.input = .ok (o, turn.after)) {tx : PoolTransaction}
    (htx : turn.before.mMemPool[turn.input.pointer]? = some tx) {a : Bytes} :
    Charges S T turn tx a ↔ firedBy turn.before turn.after = [a] := by
  obtain ⟨tx', -, -, -, ⟨b, hb, hfired⟩ | ⟨hnone, hfired⟩⟩ := takeUp_effect hT hongoing hturn htx <;> rw [hfired]
  · rw [List.singleton_inj]
    constructor
    · rintro ⟨-, ha⟩
      exact hb.unique ha
    · rintro rfl
      exact ⟨htx, hb⟩
  · exact iff_of_false (fun hcharges => hnone a hcharges.2) (List.cons_ne_nil a []).symm

/-- Where an account is charged, its trigger meets everything else in the pool. -/
theorem others_of_charges (hT : T.Documented) (hongoing : FormedBlock.Ongoing T turn.before.block)
    (hturn : takeUp S (managerCalls S T) turn.before turn.input = .ok (o, turn.after)) {tx other : PoolTransaction}
    {a : Bytes} (hcharges : Charges S T turn tx a) {j : ℕ} (hj : j ≠ turn.input.pointer)
    (hother : turn.before.mMemPool[j]? = some other) : turn.after.mMemPool[j]? = some (untrigger a other) := by
  have hfired := (charges_iff_firedBy hT hongoing hturn hcharges.1).mp hcharges
  rw [takeUp_others hturn hj, ← firedBy, hfired, hother]
  rfl

/-- An early transaction after its own turn, in which it is not untriggered. -/
theorem own_of_early (hT : T.Documented) (hongoing : FormedBlock.Ongoing T turn.before.block)
    (hturn : takeUp S (managerCalls S T) turn.before turn.input = .ok (o, turn.after)) {tx : PoolTransaction}
    (htx : turn.before.mMemPool[turn.input.pointer]? = some tx)
    (hearly : Early S (turn.before.block.manager.ledger T) tx) (hundecided : Undecided tx) :
    (∃ tx', turn.after.mMemPool[turn.input.pointer]? = some tx' ∧ Deferred tx') ↔
      ¬(turn.input.again = false ∧ turn.input.markAsProcessed = true) := by
  obtain ⟨tx', heffect, -, hown, ⟨a, hfires, -⟩ | ⟨-, hfired⟩⟩ := takeUp_effect hT hongoing hturn htx
  · exact absurd hfires hearly.not_fires
  · rw [hfired, PoolTransaction.ownMarks_nil] at hown
    rw [hown, ← heffect.deferred_iff hundecided hearly]
    constructor
    · rintro ⟨tx₁, hsame, hdeferred⟩
      rwa [Option.some.inj hsame]
    · exact fun hdeferred => ⟨tx', rfl, hdeferred⟩

/-- A turn of the pool defers the early and wakes the due exactly where the first loop meets nothing early and the
issuers tell who is due. -/
theorem wakesRightly_iff (hT : T.Documented) (hongoing : FormedBlock.Ongoing T turn.before.block)
    (hturn : takeUp S (managerCalls S T) turn.before turn.input = .ok (o, turn.after)) :
    WakesRightly S T turn ↔ IssuersTellDue S T turn := by
  constructor
  · intro hrightly
    refine ⟨?_, ?_⟩
    · intro hfirst hmark tx htx hundecided hearly
      exact (own_of_early hT hongoing hturn htx hearly hundecided).mp
        (hrightly.deferred tx htx hundecided hearly) ⟨hfirst, hmark⟩
    · intro tx a hcharges j other hj hother hwaiting
      obtain ⟨hwakes, hleaves⟩ := hrightly.woken tx a hcharges j other hj hother hwaiting
      rw [others_of_charges hT hongoing hturn hcharges hj hother] at hwakes hleaves
      refine hwaiting.untrigger_iff.mp ⟨fun hdue => ?_, fun hnot => Option.some.inj (hleaves hnot)⟩
      obtain ⟨other', hsame, heligible⟩ := hwakes hdue
      rwa [Option.some.inj hsame]
  · intro htell
    refine ⟨?_, ?_, ?_⟩
    · intro tx htx hundecided hearly
      refine (own_of_early hT hongoing hturn htx hearly hundecided).mpr ?_
      rintro ⟨hfirst, hmark⟩
      exact htell.timely hfirst hmark tx htx hundecided hearly
    · intro tx a hcharges j other hj hother hwaiting
      obtain ⟨hwakes, hleaves⟩ := hwaiting.untrigger_iff.mpr (htell.issuers tx a hcharges j other hj hother hwaiting)
      rw [others_of_charges hT hongoing hturn hcharges hj hother]
      exact ⟨fun hdue => ⟨_, rfl, hwakes hdue⟩, fun hnot => congrArg some (hleaves hnot)⟩
    · intro hno j hj
      cases htx : turn.before.mMemPool[turn.input.pointer]? with
      | none => rw [takeUp_none hturn htx]
      | some tx =>
          obtain ⟨tx', -, -, -, ⟨a, hfires, -⟩ | ⟨-, hfired⟩⟩ := takeUp_effect hT hongoing hturn htx
          · exact absurd ⟨htx, hfires⟩ (hno tx a)
          · exact others_of_firedBy_nil hturn hfired hj

end Rightly

end Gridnet
