import Nouns.Proof.TokenInvariant

/-!
# The ids of Nouns

`mint` draws ids from a counter, one or two in a call, and nothing else moves the counter
or writes a seed. So ids come in order and once, whatever is burned in between, and who
gets a Noun is decided by its id alone: the first branch of `mint` takes exactly the
multiples of ten up to 1820.
-/

namespace Nouns.Proof

open Evm CallMachine EventLog

/-- Whether the first branch of `mint` takes an id. -/
def IsReward (n : Nat) : Prop := n ≤ 1820 ∧ n % 10 = 0

instance (n : Nat) : Decidable (IsReward n) := inferInstanceAs (Decidable (_ ∧ _))

/-- Whose a Noun is when it is minted with id `n`. -/
def recipient (s : NounsToken) (n : Nat) : Address := if IsReward n then s.noundersDAO else s.minter

/-- From `s` to `s'` the Noun `n` came into being. -/
def Mints (s s' : NounsToken) (n : Nat) : Prop := s.owners_ n = 0 ∧ s'.owners_ n ≠ 0

def nounCreatedId : TokenEvent → Option Nat
  | .nounCreated id _ => some id
  | _ => none

/-- The ids a log tells were minted. -/
def mintedIds (events : List TokenEvent) : List Nat := events.filterMap nounCreatedId

@[simp] theorem mintedIds_append (es es' : List TokenEvent) :
    mintedIds (es ++ es') = mintedIds es ++ mintedIds es' := List.filterMap_append

variable {s s' s₁ : NounsToken} {m : Msg} {n id : Nat} {dst : Address}

theorem mintedIds_votes {v v' : Address → Nat} {es : List TokenEvent} (h : Replays VoteStep v es v') :
    mintedIds es = [] := by
  induction h with
  | nil => rfl
  | cons he _ ih =>
      cases he with
      | changed => exact ih

theorem VotesLogged.mintedIds_eq {before after : List TokenEvent} (h : VotesLogged before after s s')
    (hb : mintedIds before = []) (ha : mintedIds after = []) :
    mintedIds s'.logs = mintedIds s.logs := by
  obtain ⟨es, hlog, hvotes⟩ := h
  rw [hlog, mintedIds_append, mintedIds_append, mintedIds_append, hb, ha, mintedIds_votes hvotes]
  exact List.append_nil _

/-! ## Minting one Noun -/

/-- One Noun is minted, for `dst`. -/
structure Drew (dst : Address) (s s' : NounsToken) : Prop where
  dst_ne : dst ≠ 0
  counter : s'.currentNounId_ = s.currentNounId_ + 1
  owners : s'.owners_ = Function.update s.owners_ s.currentNounId_ dst
  seeds : ∃ seed, s'.seeds = Function.update s.seeds s.currentNounId_ seed
  log : mintedIds s'.logs = mintedIds s.logs ++ [s.currentNounId_]
  noundersDAO : s'.noundersDAO = s.noundersDAO
  minter : s'.minter = s.minter

theorem mintTo_drew (h₁ : s.nextNounId = .ok s₁) (h : s₁.mintTo_ m dst s.currentNounId_ = .ok s') :
    Drew dst s s' := by
  obtain ⟨seed, s₂, hminted, rfl⟩ := mintTo_shape h₁ h
  have hids : mintedIds s₂.logs = mintedIds s.logs := hminted.logged.mintedIds_eq rfl rfl
  obtain ⟨_, _, _, _, _, _, _, rfl⟩ := hminted.book
  refine ⟨hminted.dst_ne, rfl, rfl, ⟨seed, rfl⟩, ?_, rfl, rfl⟩
  show mintedIds (_ ++ [_]) = _
  rw [mintedIds_append, hids]
  rfl

/-- **A mint.** A reward comes first if its turn has come, then the Noun that is returned. -/
theorem mint_drew (h : s.mint m = .ok (s', id)) : m.sender = s.minter
    ∧ ((¬ IsReward s.currentNounId_ ∧ id = s.currentNounId_ ∧ Drew s.minter s s')
      ∨ (IsReward s.currentNounId_ ∧ id = s.currentNounId_ + 1
        ∧ ∃ s₁, Drew s.noundersDAO s s₁ ∧ Drew s₁.minter s₁ s')) := by
  simp only [NounsToken.mint, bind_ok] at h
  obtain ⟨_, hsender, s₁, h₁, s₂, h₂, s₃, h₃, h⟩ := h
  obtain ⟨rfl, rfl⟩ := Prod.mk.inj (Except.ok.inj h)
  refine ⟨require_ok.mp hsender, ?_⟩
  have hminter : s₂.minter = s₁.minter := by
    obtain ⟨_, _, h₂⟩ := bind_ok.mp h₂
    obtain rfl := Except.ok.inj h₂
    rfl
  rw [hminter] at h₃
  have hsecond := mintTo_drew h₂ h₃
  unfold NounsToken.mintReward at h₁
  split at h₁
  · next hturn =>
      obtain ⟨s₀, h₀, h₁⟩ := bind_ok.mp h₁
      have hdao : s₀.noundersDAO = s.noundersDAO := by
        obtain ⟨_, _, h₀⟩ := bind_ok.mp h₀
        obtain rfl := Except.ok.inj h₀
        rfl
      rw [hdao] at h₁
      have hfirst := mintTo_drew h₀ h₁
      exact .inr ⟨hturn, hfirst.counter, s₁, hfirst, hsecond⟩
  · next hturn =>
      obtain rfl := Except.ok.inj h₁
      exact .inl ⟨hturn, rfl, hsecond⟩

/-! ## What every call does about ids -/

/-- From `s` to `s'` the ids in between were minted, each for its recipient, and nothing before. -/
structure Allots (s s' : NounsToken) : Prop where
  counter : s.currentNounId_ ≤ s'.currentNounId_
  log : mintedIds s'.logs
    = mintedIds s.logs ++ List.range' s.currentNounId_ (s'.currentNounId_ - s.currentNounId_)
  issued : ∀ n, s.currentNounId_ ≤ n → n < s'.currentNounId_ →
    s'.owners_ n = recipient s n ∧ s'.owners_ n ≠ 0
  gone : ∀ n, n < s.currentNounId_ → s.owners_ n = 0 → s'.owners_ n = 0
  seeds : ∀ n, n < s.currentNounId_ → s'.seeds n = s.seeds n

/-- Nothing is minted. -/
structure Barren (s s' : NounsToken) : Prop where
  counter : s'.currentNounId_ = s.currentNounId_
  log : mintedIds s'.logs = mintedIds s.logs
  gone : ∀ n, s.owners_ n = 0 → s'.owners_ n = 0
  seeds : s'.seeds = s.seeds

theorem Barren.allots (h : Barren s s') : Allots s s' where
  counter := Nat.le_of_eq h.counter.symm
  log := by rw [h.counter, h.log, Nat.sub_self, List.range'_zero, List.append_nil]
  issued := fun n hle hlt => absurd (h.counter ▸ hlt) (Nat.not_lt.mpr hle)
  gone := fun n _ => h.gone n
  seeds := fun n _ => congrFun h.seeds n

/-- The id after a reward is none. -/
theorem not_isReward_succ (h : IsReward n) : ¬ IsReward (n + 1) := by
  unfold IsReward at *
  omega

theorem mint_allots (h : s.mint m = .ok (s', id)) : Allots s s' := by
  obtain ⟨-, ⟨hturn, -, hdrew⟩ | ⟨hturn, -, s₁, hfirst, hsecond⟩⟩ := mint_drew h
  · obtain ⟨seed, hseeds⟩ := hdrew.seeds
    refine ⟨by rw [hdrew.counter]; omega, ?_, ?_, ?_, ?_⟩
    · rw [hdrew.counter, hdrew.log, Nat.add_sub_cancel_left]
      rfl
    · intro n hle hlt
      rw [hdrew.counter] at hlt
      obtain rfl : n = s.currentNounId_ := by omega
      rw [hdrew.owners, Function.update_self]
      exact ⟨(if_neg hturn).symm, hdrew.dst_ne⟩
    · intro n hlt hnone
      rw [hdrew.owners, Function.update_of_ne (Nat.ne_of_lt hlt)]
      exact hnone
    · intro n hlt
      rw [hseeds, Function.update_of_ne (Nat.ne_of_lt hlt)]
  · obtain ⟨seed, hseeds⟩ := hfirst.seeds
    obtain ⟨seed', hseeds'⟩ := hsecond.seeds
    have hcounter : s'.currentNounId_ = s.currentNounId_ + 2 := by
      rw [hsecond.counter, hfirst.counter]
    refine ⟨by omega, ?_, ?_, ?_, ?_⟩
    · rw [hcounter, hsecond.log, hfirst.log, hfirst.counter, Nat.add_sub_cancel_left,
        List.append_assoc]
      rfl
    · intro n hle hlt
      rw [hsecond.owners, hfirst.owners, hfirst.counter]
      rcases Nat.lt_or_ge s.currentNounId_ n with hn | hn
      · -- the Noun that is returned
        obtain rfl : n = s.currentNounId_ + 1 := by omega
        rw [Function.update_self]
        have hdst := hsecond.dst_ne
        rw [hfirst.minter] at hdst ⊢
        exact ⟨(if_neg (not_isReward_succ hturn)).symm, hdst⟩
      · -- the reward
        obtain rfl : n = s.currentNounId_ := by omega
        rw [Function.update_of_ne (by omega), Function.update_self]
        exact ⟨(if_pos hturn).symm, hfirst.dst_ne⟩
    · intro n hlt hnone
      rw [hsecond.owners, hfirst.owners, hfirst.counter, Function.update_of_ne (by omega),
        Function.update_of_ne (by omega)]
      exact hnone
    · intro n hlt
      rw [hseeds', hseeds, hfirst.counter, Function.update_of_ne (by omega),
        Function.update_of_ne (by omega)]

/-! ## The calls that mint nothing -/

theorem burn_barren (h : s.burn m id = .ok s') : Barren s s' := by
  obtain ⟨_, _, h⟩ := bind_ok.mp h
  obtain ⟨s₁, h₁, h⟩ := bind_ok.mp h
  obtain rfl := Except.ok.inj h
  have hburned := burn_shape h₁
  have hids : mintedIds s₁.logs = mintedIds s.logs := hburned.logged.mintedIds_eq rfl rfl
  obtain ⟨_, _, _, _, _, _, _, rfl⟩ := hburned.book
  refine ⟨rfl, ?_, ?_, rfl⟩
  · show mintedIds (_ ++ [_]) = _
    rw [mintedIds_append, hids]
    exact List.append_nil _
  · intro n hn
    by_cases hid : n = id
    · subst hid
      exact Function.update_self _ _ _
    · exact (Function.update_of_ne hid _ _).trans hn

theorem transferred_barren {src : Address} {now : Nat} (h : Transferred now src dst id s s') :
    Barren s s' := by
  have howner : s.owners_ id ≠ 0 := h.owner ▸ h.src_ne
  have hids : mintedIds s'.logs = mintedIds s.logs := h.logged.mintedIds_eq rfl rfl
  obtain ⟨_, _, _, _, _, _, _, rfl⟩ := h.book
  refine ⟨rfl, hids, ?_, rfl⟩
  intro n hn
  have hid : n ≠ id := fun heq => howner (heq ▸ hn)
  exact (Function.update_of_ne hid _ _).trans hn

theorem redelegated_barren {o d : Address} {now : Nat} {nonces : Address → Nat}
    (h : Redelegated now o d { s with nonces := nonces } s') : Barren s s' := by
  have hids : mintedIds s'.logs = mintedIds s.logs := h.logged.mintedIds_eq rfl rfl
  obtain ⟨_, _, _, _, _, _, _, rfl⟩ := h.book
  exact ⟨rfl, hids, fun n hn => hn, rfl⟩

/-- A call that only sets something tells of no mint. -/
theorem config_log {c : TokenCall} (hc : isConfig c = true) (h : s.call m c = .ok s') :
    mintedIds s'.logs = mintedIds s.logs := by
  cases c with
  | mint | burn | transferFrom | safeTransferFrom | delegate | delegateBySig => simp [isConfig] at hc
  | approve dst id =>
      simp only [NounsToken.call, NounsToken.approve, NounsToken.erc721Approve, NounsToken.approve_,
        bind_ok] at h
      obtain ⟨_, _, _, _, _, _, _, _, h⟩ := h
      obtain rfl := Except.ok.inj h
      exact (mintedIds_append _ _).trans (List.append_nil _)
  | setApprovalForAll | setNoundersDAO | renounceOwnership =>
      obtain ⟨_, _, h⟩ := bind_ok.mp h
      obtain rfl := Except.ok.inj h
      exact (mintedIds_append _ _).trans (List.append_nil _)
  | setMinter | lockMinter | setDescriptor | lockDescriptor | setSeeder | lockSeeder
  | transferOwnership =>
      obtain ⟨_, _, h⟩ := bind_ok.mp h
      obtain ⟨_, _, h⟩ := bind_ok.mp h
      obtain rfl := Except.ok.inj h
      exact (mintedIds_append _ _).trans (List.append_nil _)

theorem config_barren {c : TokenCall} (hc : isConfig c = true) (h : s.call m c = .ok s') :
    Barren s s' := by
  have hlog := config_log hc h
  obtain ⟨_, _, _, _, _, _, _, _, _, _, _, _, rfl⟩ := config_configured hc h
  exact ⟨rfl, hlog, fun n hn => hn, rfl⟩

/-- Every call but `mint` mints nothing. -/
theorem call_barren {c : TokenCall} (hc : c ≠ .mint) (h : s.call m c = .ok s') : Barren s s' := by
  by_cases hconfig : isConfig c = true
  · exact config_barren hconfig h
  · cases c with
    | mint => exact absurd rfl hc
    | burn id => exact burn_barren h
    | transferFrom | safeTransferFrom => exact transferred_barren (transferFrom_shape h)
    | delegate d => exact redelegated_barren (delegate_shape h)
    | delegateBySig d nonce expiry sig =>
        obtain ⟨nonces, hr⟩ := delegateBySig_shape h
        exact redelegated_barren hr
    | _ => exact absurd rfl hconfig

theorem call_allots {c : TokenCall} (h : s.call m c = .ok s') : Allots s s' := by
  by_cases hc : c = .mint
  · subst hc
    obtain ⟨⟨_, id⟩, hmint, h⟩ := bind_ok.mp h
    obtain rfl := Except.ok.inj h
    exact mint_allots hmint
  · exact (call_barren hc h).allots

/-! ## Along every history -/

variable {g : Genesis} {x y : Config TokenWorld TokenFrame} {l : Label TokenTx TokenFrame Block}

/-- A step of the token is a call, or leaves it alone. -/
theorem step_token (h : tokenMachine.Step x l y) : y.world.token = x.world.token
    ∨ ∃ tx, l = .enter tx ∧ x.world.token.call (tx.msg x.world.block) tx.call = .ok y.world.token := by
  have hlands : ∀ {o : Outcome TokenWorld TokenFrame} {fs : List TokenFrame} {s : NounsToken}
      {w : TokenWorld},
      tokenMachine.Lands o fs y → w.token = s →
      (o = .done w ∨ o = .call w w .onERC721Received) → y.world.token = s := by
    rintro o fs s w hl rfl (rfl | rfl)
    · cases hl with
      | done => rfl
    · cases hl with
      | call => rfl
      | failed hr hl =>
          rw [tokenMachine_resume hr] at hl
          cases hl with
          | done => rfl
  cases h with
  | @enter tx w fs o _ _ he hl =>
      obtain ⟨s, hs, ho⟩ := tokenMachine_enter he
      refine .inr ⟨tx, rfl, ?_⟩
      rw [hlands hl (w := { w with token := s }) rfl ho]
      exact hs
  | resume hr hl => exact .inl (hlands hl rfl (.inl (tokenMachine_resume hr)))
  | tick ht =>
      obtain ⟨rfl, -⟩ := tokenMachine_tick ht
      exact .inl rfl

theorem step_allots (h : tokenMachine.Step x l y) : Allots x.world.token y.world.token := by
  rcases step_token h with heq | ⟨tx, -, hcall⟩
  · rw [heq]
    exact Barren.allots ⟨rfl, rfl, fun _ h => h, rfl⟩
  · exact call_allots hcall

/-- A step that mints is a `mint` of the minter. -/
theorem step_minter (h : tokenMachine.Step x l y)
    (hlt : x.world.token.currentNounId_ < y.world.token.currentNounId_) :
    ∃ tx id, l = .enter tx ∧ tx.call = .mint ∧ tx.sender = x.world.token.minter
      ∧ x.world.token.mint (tx.msg x.world.block) = .ok (y.world.token, id) := by
  rcases step_token h with heq | ⟨tx, rfl, hcall⟩
  · rw [heq] at hlt
    exact absurd hlt (Nat.lt_irrefl _)
  · by_cases hc : tx.call = .mint
    · rw [hc] at hcall
      obtain ⟨⟨_, id⟩, hmint, hcall⟩ := bind_ok.mp hcall
      obtain rfl := Except.ok.inj hcall
      exact ⟨tx, id, rfl, hc, (mint_drew hmint).1, hmint⟩
    · rw [(call_barren hc hcall).counter] at hlt
      exact absurd hlt (Nat.lt_irrefl _)

/-- What is behind the counter stays as it is. -/
theorem runs_settled (h : tokenMachine.Runs Free x y) :
    x.world.token.currentNounId_ ≤ y.world.token.currentNounId_
    ∧ ∀ n, n < x.world.token.currentNounId_ → y.world.token.seeds n = x.world.token.seeds n
      ∧ (x.world.token.owners_ n = 0 → y.world.token.owners_ n = 0) := by
  induction h with
  | refl => exact ⟨Nat.le_refl _, fun n _ => ⟨rfl, id⟩⟩
  | tail _ hs ih =>
      obtain ⟨l, -, hs⟩ := hs
      have ha := step_allots hs
      refine ⟨ih.1.trans ha.counter, ?_⟩
      intro n hn
      have hn' := Nat.lt_of_lt_of_le hn ih.1
      exact ⟨(ha.seeds n hn').trans (ih.2 n hn).1, fun h0 => ha.gone n hn' ((ih.2 n hn).2 h0)⟩

/-- The log tells of every id below the counter, in order. -/
theorem runs_log (h : TokenRuns g x) :
    mintedIds x.world.token.logs = List.range x.world.token.currentNounId_ := by
  induction h with
  | refl => rfl
  | tail _ hs ih =>
      obtain ⟨l, -, hs⟩ := hs
      have ha := step_allots hs
      obtain ⟨k, hk⟩ := Nat.le.dest ha.counter
      rw [ha.log, ih, ← hk, Nat.add_sub_cancel_left, List.range_eq_range', List.range_eq_range',
        ← List.range'_append_1, Nat.zero_add]

/-- Which ids a step mints, to whom, and who makes it. -/
structure MintsInTurn (x : Config TokenWorld TokenFrame) (l : Label TokenTx TokenFrame Block)
    (y : Config TokenWorld TokenFrame) : Prop where
  ids : ∀ n, Mints x.world.token y.world.token n
    ↔ x.world.token.currentNounId_ ≤ n ∧ n < y.world.token.currentNounId_
  owner : ∀ n, Mints x.world.token y.world.token n →
    y.world.token.owners_ n = recipient x.world.token n
  call : ∀ n, Mints x.world.token y.world.token n →
    ∃ tx, l = .enter tx ∧ tx.call = .mint ∧ tx.sender = x.world.token.minter

/-- Ids beyond the counter have no owner before the step and none after it. -/
theorem Allots.mints_iff (h : Allots s s') (hs : Holdings s) (hs' : Holdings s') :
    Mints s s' n ↔ s.currentNounId_ ≤ n ∧ n < s'.currentNounId_ := by
  constructor
  · intro hin
    obtain ⟨h0, hown⟩ := hin
    refine ⟨?_, hs'.lt_current hown⟩
    by_contra hlt
    exact hown (h.gone n (by omega) h0)
  · intro hin
    obtain ⟨hle, hlt⟩ := hin
    exact ⟨hs.minted n hle, (h.issued n hle hlt).2⟩

theorem step_mintsInTurn (hx : TokenRuns g x) (h : tokenMachine.Step x l y) : MintsInTurn x l y := by
  have ha := step_allots h
  have hids : ∀ n, Mints x.world.token y.world.token n
      ↔ x.world.token.currentNounId_ ≤ n ∧ n < y.world.token.currentNounId_ := fun n =>
    ha.mints_iff (tokenInv_runs hx).holdings (tokenInv_runs (hx.tail trivial h)).holdings
  refine ⟨hids, ?_, ?_⟩
  · intro n hn
    obtain ⟨hle, hlt⟩ := (hids n).mp hn
    exact (ha.issued n hle hlt).1
  · intro n hn
    obtain ⟨hle, hlt⟩ := (hids n).mp hn
    obtain ⟨tx, -, hl, hc, hsender, -⟩ := step_minter h (by omega)
    exact ⟨tx, hl, hc, hsender⟩

/-- `mint` returns the one Noun it mints that is no reward. -/
theorem mint_returns (hs : Holdings s) (h : s.mint m = .ok (s', id)) :
    (Mints s s' n ∧ ¬ IsReward n) ↔ n = id := by
  have heffects : Effects m.block.number (fun _ _ => False) s s' := mint_effects h
  have hs' : Holdings s' := heffects.holdings hs
  rw [(mint_allots h).mints_iff hs hs']
  obtain ⟨-, ⟨hturn, rfl, hdrew⟩ | ⟨hturn, rfl, s₁, hfirst, hsecond⟩⟩ := mint_drew h
  · rw [hdrew.counter]
    constructor
    · intro hin
      obtain ⟨hn, -⟩ := hin
      omega
    · intro hsame
      subst hsame
      exact ⟨by omega, hturn⟩
  · rw [hsecond.counter, hfirst.counter]
    constructor
    · intro hin
      obtain ⟨hn, hnot⟩ := hin
      have hne : n ≠ s.currentNounId_ := fun heq => hnot (heq ▸ hturn)
      omega
    · intro hsame
      subst hsame
      exact ⟨by omega, not_isReward_succ hturn⟩

/--
**Noun ids are handed out in order.** Every id below the counter was minted, once and in
order; a step mints the ids it moves the counter past, each for its recipient of the moment;
`mint` returns the one of them that is no reward; and of what has been minted neither the
seed changes nor does what was burned come back.
-/
theorem noun_ids (g : Genesis) (x : Config TokenWorld TokenFrame) (hx : TokenRuns g x) :
    mintedIds x.world.token.logs = List.range x.world.token.currentNounId_
    ∧ (∀ l y, tokenMachine.Step x l y → MintsInTurn x l y)
    ∧ (∀ m s' id, x.world.token.mint m = .ok (s', id) →
        ∀ n, (Mints x.world.token s' n ∧ ¬ IsReward n) ↔ n = id)
    ∧ ∀ y, tokenMachine.Runs Free x y → ∀ n, n < x.world.token.currentNounId_ →
        y.world.token.seeds n = x.world.token.seeds n
          ∧ (x.world.token.owners_ n = 0 → y.world.token.owners_ n = 0) :=
  ⟨runs_log hx, fun _ _ h => step_mintsInTurn hx h,
    fun _ _ _ h _ => mint_returns (tokenInv_runs hx).holdings h, fun _ h => (runs_settled h).2⟩

/-- Nouns 0 to 2 are minted and Noun 1 is burned; the next `mint` returns 3. -/
theorem noun_ids_burned : ∃ x, TokenRuns smallGenesis x ∧ x.world.token.owners_ 1 = 0
    ∧ mintedIds x.world.token.logs = [0, 1, 2]
    ∧ ∀ y, tokenMachine.Runs Free x y → y.world.token.owners_ 1 = 0 := by
  obtain ⟨x, hx, hp⟩ := Machine.script_exists (M := tokenMachine) Machine.anything_free
    (x := ⟨smallGenesis.world, []⟩)
    (m := [.enter (smallTx (.ofNat 4) .mint), .enter (smallTx (.ofNat 4) .mint),
      .enter (smallTx (.ofNat 4) (.burn 1))])
    (p := fun x => x.world.token.owners_ 1 = 0 ∧ x.world.token.currentNounId_ = 3)
    (by decide +kernel)
  obtain ⟨hburned, hcounter⟩ := of_decide_eq_true hp
  obtain ⟨hlog, -, -, hlater⟩ := noun_ids smallGenesis x hx
  rw [hcounter] at hlog hlater
  exact ⟨x, hx, hburned, hlog, fun y hy => (hlater y hy 1 (by decide)).2 hburned⟩

end Nouns.Proof
