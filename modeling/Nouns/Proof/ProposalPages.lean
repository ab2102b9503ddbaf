import Nouns.Lib.PartialMap
import Nouns.Proof.DAOSettings
import Nouns.Webapp.NounsDao

/-!
# What the proposals' pages show

The pages take a proposal's numbers from the contract, by its id, and its text, actions and
transaction from the logs, by its place among them. The places agree with the ids in every
history: the logs of creation are those of proposals 1, 2 and so on, each with the terms that the
books still have. An id that is no byte is not encoded, so from proposal 256 on the pages have no
answers and cannot be found.
-/

namespace Nouns.Proof

open Evm CallMachine Webapp PartialMap

/-! ## The logs of creation -/

/-- The arguments of the log that announces proposal `id`. -/
def announcement (id : Nat) (t : Terms) (description : String) : CreatedArgs :=
  ⟨id, t.proposer, t.targets, t.values, t.signatures, t.calldatas, t.startBlock, t.endBlock,
    description⟩

/-- The announcements with these texts, in the order of the ids. -/
def announcements (proposals : Nat → Proposal) (texts : List String) : List CreatedArgs :=
  texts.zipIdx.map fun q => announcement (q.2 + 1) (proposals (q.2 + 1)).terms q.1

theorem announcements_congr {proposals proposals' : Nat → Proposal} {texts : List String}
    (h : ∀ id, id ≤ texts.length → (proposals' id).terms = (proposals id).terms) :
    announcements proposals' texts = announcements proposals texts := by
  refine List.map_congr_left ?_
  intro q hq
  have hlt := List.snd_lt_of_mem_zipIdx hq
  rw [h (q.2 + 1) (by omega)]

theorem announcements_append (proposals : Nat → Proposal) (texts : List String) (text : String) :
    announcements proposals (texts ++ [text]) = announcements proposals texts
      ++ [announcement (texts.length + 1) (proposals (texts.length + 1)).terms text] := by
  unfold announcements
  rw [List.zipIdx_append, List.map_append, Nat.zero_add]
  rfl

/-- The proposals have their own ids, and are announced in the order of these. -/
structure Announced (s : NounsDAO) (texts : List String) : Prop where
  count : texts.length = s.proposalCount
  logs : s.logs.filterMap parseLog = announcements s.proposals texts
  ids : ∀ id, 0 < id → id ≤ s.proposalCount → (s.proposals id).id = id

variable {H : Type} {env : Env H} {w : Governance H} {s s' : NounsDAO} {id : Nat}
  {texts : List String}

/-- Nothing is announced, and the proposals keep their terms and ids. -/
theorem Announced.keep (h : Announced s texts)
    (hlogs : s'.logs.filterMap parseLog = s.logs.filterMap parseLog)
    (hcount : s'.proposalCount = s.proposalCount)
    (hterms : ∀ id, (s'.proposals id).terms = (s.proposals id).terms)
    (hids : ∀ id, (s'.proposals id).id = (s.proposals id).id) : Announced s' texts where
  count := h.count.trans hcount.symm
  logs := by
    rw [hlogs, h.logs, announcements_congr fun id _ => hterms id]
  ids id hpos hid := (hids id).trans (h.ids id hpos (hcount ▸ hid))

/-- A proposal is written, but for its terms and id. -/
theorem Announced.write {p : Proposal} (h : Announced s texts) (hw : Wrote id p s s')
    (hlogs : s'.logs.filterMap parseLog = s.logs.filterMap parseLog)
    (hterms : p.terms = (s.proposals id).terms) (hid : p.id = (s.proposals id).id) :
    Announced s' texts := by
  obtain ⟨hself, hother, hcount⟩ := hw.proposals
  refine h.keep hlogs hcount ?_ ?_
  · intro j
    by_cases hj : j = id
    · rw [hj, hself, hterms]
    · rw [hother j hj]
  · intro j
    by_cases hj : j = id
    · rw [hj, hself, hid]
    · rw [hother j hj]

theorem parseLog_append {events : List DAOEvent} (hlog : s'.logs = s.logs ++ events)
    (h : ∀ e ∈ events, parseLog e = none) :
    s'.logs.filterMap parseLog = s.logs.filterMap parseLog := by
  rw [hlog, List.filterMap_append, List.filterMap_eq_nil_iff.mpr h, List.append_nil]

theorem parseLog_quiet {e : DAOEvent} (h : tellsOfProposal e = false) : parseLog e = none := by
  cases e with
  | proposalCreated => cases h
  | _ => rfl

/-- A proposal is submitted, and announced as the next one. -/
theorem Announced.propose {block : Block} {p : Proposal} (h : Announced s texts)
    (hp : Proposed block id s s' p) (hid : p.id = id) : ∃ texts, Announced s' texts := by
  obtain ⟨text, hlog⟩ := hp.logged
  obtain ⟨_, _, hbook⟩ := hp.book
  have hnext := hp.id_eq
  have hcount : s'.proposalCount = id := by rw [hbook]
  have hself : s'.proposals id = p := by
    rw [hbook]
    exact Function.update_self ..
  have hother : ∀ j, j ≠ id → s'.proposals j = s.proposals j := by
    intro j hj
    rw [hbook]
    exact Function.update_of_ne hj ..
  have hlength : texts.length + 1 = id := by rw [h.count, hnext]
  refine ⟨texts ++ [text], ?_, ?_, ?_⟩
  · rw [List.length_append, hcount, ← hlength]
    rfl
  · have hold : announcements s'.proposals texts = announcements s.proposals texts :=
      announcements_congr fun j hj => by rw [hother j (by omega)]
    rw [announcements_append, hold, ← h.logs, hlength, hself, hlog, List.filterMap_append]
    rfl
  · intro j hpos hj
    by_cases hlast : j = id
    · rw [hlast, hself, hid]
    · rw [hother j hlast]
      exact h.ids j hpos (by omega)

/-- The id that `propose` writes down. -/
theorem propose_id {sender : Address} {block : Block} {nouns : NounsToken}
    {targets : List Address} {values : List Nat} {signatures : List String}
    {calldatas : List Bytes} {description : String}
    (h : s.propose sender block nouns targets values signatures calldatas description
      = .ok (s', id)) : (s'.proposals id).id = id := by
  simp only [NounsDAO.propose, bind_ok, require_ok, add_ok, sub_ok] at h
  obtain ⟨_, _, _, _, _, _, _, _, _, _, _, _, _, _, _, _, _, _, _, _, _, ⟨_, rfl⟩, _, _, h⟩ := h
  obtain ⟨rfl, rfl⟩ := Prod.mk.inj (Except.ok.inj h)
  show (Function.update s.proposals _ _ _).id = _
  rw [Function.update_self]
  rfl

variable [DecidableEq H] {x y : GovConfig H} {l : GovLabel}

theorem Act.announced {i : Nat} {fs : List GovernanceFrame} (h : Announced w.dao texts)
    (ha : Act env id i w fs y) : Announced y.world.dao texts := by
  cases ha with
  | calls _ _ hct =>
      obtain rfl := hct.book
      exact h
  | finishes _ =>
      exact h.keep (parseLog_append rfl (by simp [parseLog])) rfl (fun _ => rfl) fun _ => rfl

theorem step_announced (hset : x.world.dao.timelock ≠ 0) (h : Announced x.world.dao texts)
    (hs : (governanceMachine env).Step x l y) : ∃ texts, Announced y.world.dao texts := by
  cases step_effect hs with
  | token | administer | direct | returned | tick => exact ⟨texts, h⟩
  | reconfigure hr =>
      obtain ⟨events, hquiet, hlog⟩ := hr.logged
      obtain ⟨_, _, _, _, _, _, _, _, _, _, rfl⟩ := hr.book
      exact ⟨texts, h.keep (parseLog_append hlog fun e he => parseLog_quiet (hquiet e he)) rfl
        (fun _ => rfl) fun _ => rfl⟩
  | @propose w fs l s id p hp =>
      obtain ⟨_, _, hbook⟩ := hp.book
      have hcount : s.proposalCount = w.dao.proposalCount + 1 := by
        rw [hbook, ← hp.id_eq]
      have hself : s.proposals id = p := by
        rw [hbook]
        exact Function.update_self ..
      refine h.propose hp ?_
      cases step_minded hset hs with
      | quiet hq => exact absurd (hq.2.symm.trans hcount) (Nat.ne_of_lt (Nat.lt_succ_self _))
      | amends _ hsame =>
          exact absurd (hsame.symm.trans hcount) (Nat.ne_of_lt (Nat.lt_succ_self _))
      | proposes hprop =>
          obtain rfl := hp.id_eq
          rw [← hself]
          exact propose_id hprop
  | vote _ hv =>
      obtain ⟨_, _, _, _, _, hw⟩ := hv.book
      obtain ⟨_, _, hlog⟩ := hv.logged
      exact ⟨texts, h.write hw (parseLog_append hlog (by simp [parseLog])) rfl rfl⟩
  | queue hq =>
      exact ⟨texts, h.write hq.book (parseLog_append hq.logged (by simp [parseLog])) rfl rfl⟩
  | stop _ hstop =>
      have hlog := hstop.logged
      have hw := hstop.wrote
      cases hv : vetoes l <;> rw [hv] at hlog hw
      · exact ⟨texts, h.write hw (parseLog_append hlog (by simp [parseLog])) rfl rfl⟩
      · exact ⟨texts, h.write hw (parseLog_append hlog (by simp [parseLog])) rfl rfl⟩
  | @execute w fs l s id y hstart ha =>
      have hs : Announced s texts := by
        have hw : Wrote id _ w.dao s := ⟨w.dao.logs, hstart.book⟩
        refine h.write hw ?_ rfl rfl
        rw [hstart.book]
        rfl
      exact ⟨texts, Act.announced (w := { w with dao := s }) hs ha⟩
  | @next w fs id i t logs y ha =>
      exact ⟨texts, Act.announced
        (w := { w with executor := { w.executor with logs := logs } }) h ha⟩

omit [DecidableEq H] in
theorem announced_deployment (d : Deployment env) : Announced d.dao [] where
  count := (deployment_unused d).1.symm
  logs := List.filterMap_eq_nil_iff.mpr fun e he => parseLog_quiet (deployment_quiet d e he)
  ids id hpos hid := by
    rw [(deployment_unused d).1] at hid
    omega

theorem announced_runs {d : Deployment env} (hx : GovRuns d x) :
    ∃ texts, Announced x.world.dao texts := by
  induction hx with
  | refl => exact ⟨[], announced_deployment d⟩
  | tail hy hs ih =>
      obtain ⟨_, _, hs⟩ := hs
      obtain ⟨texts, h⟩ := ih
      exact step_announced (setUp_runs hy).1 h hs

/-! ## The pages -/

section
variable (formatEther : Nat → String) (decode : List String → Bytes → Option String)

/-- The details of proposal `id`, from the books. -/
def detailsOf (s : NounsDAO) (id : Nat) : Option (List ProposalDetail) :=
  formatDetails formatEther decode (s.proposals id).targets (s.proposals id).values
    (s.proposals id).signatures (s.proposals id).calldatas

/-- The page `page` shows proposal `id`, as the books and the logs have it. -/
structure ShowsProposal (s : NounsDAO) (block : Block) (logs : List (String × DAOEvent)) (id : Nat)
    (page : ProposalPage) : Prop where
  proposer : page.proposer = some (s.proposals id).proposer
  status : page.status = (s.state block id).toOption
  forCount : page.forCount = (s.proposals id).forVotes
  againstCount : page.againstCount = (s.proposals id).againstVotes
  abstainCount : page.abstainCount = (s.proposals id).abstainVotes
  proposalThreshold : page.proposalThreshold = (s.proposals id).proposalThreshold
  quorumVotes : page.quorumVotes = (s.proposals id).quorumVotes
  createdBlock : page.createdBlock = some ((s.proposals id).startBlock - s.votingDelay : Int)
  startBlock : page.startBlock = some (s.proposals id).startBlock
  endBlock : page.endBlock = some (s.proposals id).endBlock
  eta : page.eta = some (s.proposals id).eta
  details : page.details = detailsOf formatEther decode s id
  origin : ∃ transactionHash text, page.transactionHash = some transactionHash
    ∧ page.description = replaceBreaks text
    ∧ (transactionHash, DAOEvent.proposalCreated id (s.proposals id).proposer
        (s.proposals id).targets (s.proposals id).values (s.proposals id).signatures
        (s.proposals id).calldatas (s.proposals id).startBlock (s.proposals id).endBlock text) ∈ logs
  id : page.id = some id

end

/-- What the pages show once the contract's answers and the logs are there. -/
def proposalPages (encodeUint : List Nat → Option Nat) (s : NounsDAO) (block : Block)
    (formatted : List FormattedLog) : ProposalData :=
  let indices := countToIndices (some s.proposalCount)
  useAllProposals (some s.votingDelay)
    (callEach encodeUint (fun id => some (callProposals s id)) indices)
    (callEach encodeUint (fun id => (s.state block id).toOption) indices) (some formatted)

/-- The logs that are parsed, with the hashes of their transactions. -/
def createdLogs (logs : List (String × DAOEvent)) : List (String × CreatedArgs) :=
  logs.filterMap fun log => (parseLog log.2).map (log.1, ·)

theorem createdLogs_snd (logs : List (String × DAOEvent)) :
    (createdLogs logs).map Prod.snd = (logs.map Prod.snd).filterMap parseLog := by
  unfold createdLogs
  rw [List.map_filterMap, List.filterMap_map]
  refine List.filterMap_congr ?_
  intro log _
  simp [Function.comp_def]

theorem parseLog_eq {e : DAOEvent} {args : CreatedArgs} (h : parseLog e = some args) :
    e = .proposalCreated args.id args.proposer args.targets args.values args.signatures
      args.calldatas args.startBlock args.endBlock args.description := by
  cases e with
  | proposalCreated => cases h; rfl
  | _ => cases h

variable {logs : List (String × DAOEvent)} {formatEther : Nat → String}
  {decode : List String → Bytes → Option String} {formatted : List FormattedLog} {block : Block}
  {encodeUint : List Nat → Option Nat}

/-- The log of proposal `id` has place `id - 1`. -/
theorem Announced.created (h : Announced s texts) (hlogs : logs.map Prod.snd = s.logs)
    (hid : id < s.proposalCount) : ∃ transactionHash text,
    (createdLogs logs)[id]?
      = some (transactionHash, announcement (id + 1) (s.proposals (id + 1)).terms text) := by
  have hlt : id < texts.length := by rw [h.count]; exact hid
  have hmap : ((createdLogs logs).map Prod.snd)[id]?
      = some (announcement (id + 1) (s.proposals (id + 1)).terms texts[id]) := by
    rw [createdLogs_snd, hlogs, h.logs]
    simp [announcements, hlt]
  rw [List.getElem?_map] at hmap
  obtain ⟨⟨hash, args⟩, hget, hargs⟩ := Option.map_eq_some_iff.mp hmap
  obtain rfl : args = _ := hargs
  exact ⟨hash, texts[id], hget⟩

theorem Announced.length (h : Announced s texts) (hlogs : logs.map Prod.snd = s.logs) :
    (createdLogs logs).length = s.proposalCount := by
  have hlength := congrArg List.length (createdLogs_snd logs)
  rw [List.length_map, hlogs, h.logs] at hlength
  rw [hlength, ← h.count]
  simp [announcements]

/-- The logs can be formatted when the actions of every proposal can. -/
theorem Announced.formats (h : Announced s texts) (hlogs : logs.map Prod.snd = s.logs) :
    (formatLogs formatEther decode logs).isSome
      ↔ ∀ id, 0 < id → id ≤ s.proposalCount → (detailsOf formatEther decode s id).isSome := by
  have hiff : (formatLogs formatEther decode logs).isSome ↔ ∀ log ∈ createdLogs logs,
      (formatDetails formatEther decode log.2.targets log.2.values log.2.signatures
        log.2.calldatas).isSome := by
    refine mapM_isSome_iff.trans ?_
    refine forall₂_congr fun log _ => ?_
    rw [formatLog, Option.isSome_map]
  rw [hiff]
  constructor
  · intro hall id hpos hid
    obtain ⟨hash, text, hget⟩ := h.created hlogs
      (show id - 1 < s.proposalCount by omega)
    have hsome := hall _ (List.mem_of_getElem? hget)
    rw [Nat.sub_add_cancel hpos] at hsome
    exact hsome
  · intro hall log hlog
    obtain ⟨i, hget⟩ := List.mem_iff_getElem?.mp hlog
    have hi : i < s.proposalCount := by
      rw [← h.length hlogs]
      exact (List.getElem?_eq_some_iff.mp hget).1
    obtain ⟨hash, text, hget'⟩ := h.created hlogs hi
    obtain rfl := Option.some.inj (hget.symm.trans hget')
    exact hall (i + 1) (Nat.succ_pos i) hi

/-- What the log of proposal `id` is formatted to. -/
theorem Announced.formatted_get (h : Announced s texts) (hlogs : logs.map Prod.snd = s.logs)
    (hformat : formatLogs formatEther decode logs = some formatted) (hid : id < s.proposalCount) :
    ∃ transactionHash text details, (createdLogs logs)[id]?
        = some (transactionHash, announcement (id + 1) (s.proposals (id + 1)).terms text)
      ∧ detailsOf formatEther decode s (id + 1) = some details
      ∧ formatted[id]? = some ⟨text, transactionHash, details⟩ := by
  obtain ⟨hash, text, hget⟩ := h.created hlogs hid
  obtain ⟨hlength, hall⟩ := List.forall₂_iff_get.mp (mapM_some_iff.mp hformat)
  obtain ⟨hlt, hlog⟩ := List.getElem?_eq_some_iff.mp hget
  have hlt' : id < formatted.length := hlength ▸ hlt
  have hformatted := hall id hlt hlt'
  change formatLog formatEther decode (createdLogs logs)[id].1 (createdLogs logs)[id].2 = _
    at hformatted
  rw [hlog] at hformatted
  obtain ⟨details, hdetails, hlast⟩ := Option.map_eq_some_iff.mp hformatted
  exact ⟨hash, text, details, hget, hdetails, List.getElem?_eq_some_iff.mpr ⟨hlt', hlast.symm⟩⟩

/-- The answers to the calls with the indices, one by one. -/
theorem callEach_get {A : Type} {answer : Nat → Option A} {count i : Nat} (h : i < count) :
    (callEach encodeUint answer (countToIndices (some count)))[i]?
      = some ((encodeUint [i + 1]).bind answer) := by
  simp [callEach, countToIndices, h]

theorem mem_logs {transactionHash : String} {args : CreatedArgs}
    (h : (transactionHash, args) ∈ createdLogs logs) : (transactionHash, DAOEvent.proposalCreated
      args.id args.proposer args.targets args.values args.signatures args.calldatas
      args.startBlock args.endBlock args.description) ∈ logs := by
  obtain ⟨log, hlog, hparse⟩ := List.mem_filterMap.mp h
  obtain ⟨args', hargs, heq⟩ := Option.map_eq_some_iff.mp hparse
  obtain ⟨rfl, rfl⟩ := Prod.mk.inj heq
  rw [← parseLog_eq hargs]
  exact hlog

/-- Page by page, what the pages show. -/
theorem Announced.pages (h : Announced s texts) (hlogs : logs.map Prod.snd = s.logs)
    (hencode : EncodesBytes encodeUint)
    (hformat : formatLogs formatEther decode logs = some formatted) :
    (proposalPages encodeUint s block formatted).loading = false
      ∧ (proposalPages encodeUint s block formatted).data.length = s.proposalCount
      ∧ ∀ id, id < s.proposalCount →
        ∃ page, (proposalPages encodeUint s block formatted).data[id]? = some page
          ∧ (id + 1 < 256 → ShowsProposal formatEther decode s block logs (id + 1) page)
          ∧ (256 ≤ id + 1 → page.id = none) := by
  have hlength : formatted.length = s.proposalCount := by
    rw [← h.length hlogs]
    exact (List.Forall₂.length_eq (mapM_some_iff.mp hformat)).symm
  unfold proposalPages useAllProposals
  simp only [Option.getD_some]
  rw [if_neg]
  · refine ⟨rfl, by simp [callEach, countToIndices], ?_⟩
    intro id hid
    obtain ⟨hash, text, details, hget, hdetails, hformatted⟩ := h.formatted_get hlogs hformat hid
    refine ⟨proposalPage (some s.votingDelay)
      ((encodeUint [id + 1]).bind fun id => some (callProposals s id))
      ((encodeUint [id + 1]).bind fun id => (s.state block id).toOption)
      (some ⟨text, hash, details⟩), ?_, ?_, ?_⟩
    · rw [List.getElem?_map, List.getElem?_zipIdx, callEach_get hid]
      simp [callEach_get hid, hformatted]
    · intro hbyte
      rw [hencode.byte _ hbyte]
      exact {
        proposer := rfl
        status := rfl
        forCount := rfl
        againstCount := rfl
        abstainCount := rfl
        proposalThreshold := rfl
        quorumVotes := rfl
        createdBlock := rfl
        startBlock := rfl
        endBlock := rfl
        eta := rfl
        details := hdetails.symm
        origin := ⟨hash, text, rfl, rfl, mem_logs (List.mem_of_getElem? hget)⟩
        id := congrArg some (h.ids (id + 1) (Nat.succ_pos id) hid) }
    · intro hlarge
      rw [hencode.refuses _ hlarge]
      rfl
  · intro hearly
    obtain ⟨hsome, hnone⟩ := hearly
    rw [hnone] at hlength
    rw [← hlength] at hsome
    exact hsome rfl

/-- A page is found by its id. -/
theorem useProposal_get {pages : List ProposalPage} {n : Nat} (hn : n < pages.length)
    (hbyte : n + 1 < 256)
    (hids : ∀ i (hi : i < pages.length), i + 1 < 256 → pages[i].id = some (i + 1)) :
    useProposal (n + 1) pages = some pages[n] := by
  refine List.find?_eq_some_iff_getElem.mpr ⟨decide_eq_true (hids n hn hbyte), n, hn, rfl, ?_⟩
  intro j hj
  have hne : pages[j].id ≠ some (n + 1) := by
    rw [hids j (hj.trans hn) (by omega)]
    intro heq
    have := Option.some.inj heq
    omega
  simp [hne]

theorem useProposal_none {pages : List ProposalPage} {id : Nat}
    (hid : pages.length < id ∨ id = 0 ∨ 256 ≤ id)
    (hids : ∀ i (hi : i < pages.length), i + 1 < 256 → pages[i].id = some (i + 1))
    (hlate : ∀ i (hi : i < pages.length), 256 ≤ i + 1 → pages[i].id = none) :
    useProposal id pages = none := by
  refine List.find?_eq_none.mpr ?_
  intro page hpage heq
  obtain ⟨i, hi, rfl⟩ := List.mem_iff_getElem.mp hpage
  rcases Nat.lt_or_ge (i + 1) 256 with hbyte | hlarge
  · have hsome := (hids i hi hbyte).symm.trans (of_decide_eq_true heq)
    have := Option.some.inj hsome
    omega
  · cases (hlate i hi hlarge).symm.trans (of_decide_eq_true heq)

/--
**What the pages show.** In every history, the logs can be formatted exactly when the call data of
every action decode. Then there is one page for each proposal; the page found under an id below 256
is that proposal's, with the numbers, the actions, the text and the transaction of that proposal
and of no other; and no page is found under any other id, 256 and above included.
-/
theorem proposals_shown (formatEther : Nat → String) (decode : List String → Bytes → Option String)
    (encodeUint : List Nat → Option Nat) (hencode : EncodesBytes encodeUint)
    (env : Env H) (d : Deployment env) (x : GovConfig H) (hx : GovRuns d x)
    (logs : List (String × DAOEvent)) (hlogs : logs.map Prod.snd = x.world.dao.logs) :
    ((formatLogs formatEther decode logs).isSome ↔ ∀ id, 0 < id → id ≤ x.world.dao.proposalCount →
      (detailsOf formatEther decode x.world.dao id).isSome)
    ∧ ∀ formatted, formatLogs formatEther decode logs = some formatted →
      (proposalPages encodeUint x.world.dao x.world.block formatted).loading = false
      ∧ (proposalPages encodeUint x.world.dao x.world.block formatted).data.length
        = x.world.dao.proposalCount
      ∧ (∀ id, 0 < id → id ≤ x.world.dao.proposalCount → id < 256 → ∃ page,
        useProposal id (proposalPages encodeUint x.world.dao x.world.block formatted).data = some page
        ∧ ShowsProposal formatEther decode x.world.dao x.world.block logs id page)
      ∧ ∀ id, x.world.dao.proposalCount < id ∨ id = 0 ∨ 256 ≤ id →
        useProposal id (proposalPages encodeUint x.world.dao x.world.block formatted).data = none := by
  obtain ⟨texts, h⟩ := announced_runs hx
  refine ⟨h.formats hlogs, ?_⟩
  intro formatted hformat
  obtain ⟨hloading, hlength, hpages⟩ :
      (proposalPages encodeUint x.world.dao x.world.block formatted).loading = false ∧ _ :=
    h.pages hlogs hencode hformat
  generalize (proposalPages encodeUint x.world.dao x.world.block formatted).data = pages at *
  have hpage : ∀ i (hi : i < pages.length),
      (i + 1 < 256 → ShowsProposal formatEther decode x.world.dao x.world.block logs (i + 1) pages[i])
        ∧ (256 ≤ i + 1 → pages[i].id = none) := by
    intro i hi
    obtain ⟨page, hget, hpage⟩ := hpages i (hlength ▸ hi)
    rw [(List.getElem?_eq_some_iff.mp hget).2]
    exact hpage
  have hids : ∀ i (hi : i < pages.length), i + 1 < 256 → pages[i].id = some (i + 1) :=
    fun i hi hbyte => ((hpage i hi).1 hbyte).id
  refine ⟨hloading, hlength, ?_, ?_⟩
  · intro id hpos hid hbyte
    obtain ⟨i, rfl⟩ := Nat.exists_eq_succ_of_ne_zero (Nat.ne_of_gt hpos)
    have hi : i < pages.length := hlength ▸ hid
    exact ⟨_, useProposal_get hi hbyte hids, (hpage i hi).1 hbyte⟩
  · intro id hid
    exact useProposal_none (hlength ▸ hid) hids fun i hi => (hpage i hi).2

/-- Call data that always decode, to nothing. -/
def decodeNothing : List String → Bytes → Option String := fun _ _ => some ""

/-- Arrays taken for bytes. -/
def encodeByteArray (index : List Nat) : Option Nat :=
  if ∀ b ∈ index, b < 256 then some (index.foldl (fun value b => 256 * value + b) 0) else none

theorem encodeByteArray_encodes : EncodesBytes encodeByteArray where
  byte n hn := by simp [encodeByteArray, hn]
  refuses n hn := by simp [encodeByteArray, Nat.not_lt_of_le hn]

/-- The page of the payment, its logs being of the transaction `0xab`. -/
theorem proposals_shown_payment : ∃ (x : GovConfig Transaction) (formatted : List FormattedLog)
    (page : ProposalPage), GovRuns smallDeployment x
    ∧ useProposal 1 (proposalPages encodeByteArray x.world.dao x.world.block formatted).data = some page
    ∧ page.status = (x.world.dao.state x.world.block 1).toOption
    ∧ page.transactionHash = some "0xab" := by
  obtain ⟨x, hx, hp⟩ := Machine.script_exists (M := governanceMachine smallEnv)
    Machine.anything_free (x := ⟨smallDeployment.world, []⟩)
    (m := [.enter mintTwo, .tick ⟨2, 20⟩, .enter (daoTx 2 proposePayment)])
    (p := fun x => x.world.dao.proposalCount = 1 ∧ (formatLogs (fun _ => "") decodeNothing
      (x.world.dao.logs.map fun e => ("0xab", e))).isSome = true) (by decide +kernel)
  obtain ⟨hcount, hsome⟩ := of_decide_eq_true hp
  have hlogs : (x.world.dao.logs.map fun e => ("0xab", e)).map Prod.snd = x.world.dao.logs := by
    simp [Function.comp_def]
  obtain ⟨formatted, hformat⟩ := Option.isSome_iff_exists.mp hsome
  obtain ⟨-, -, hpages, -⟩ := (proposals_shown (fun _ => "") decodeNothing encodeByteArray
    encodeByteArray_encodes smallEnv smallDeployment x hx _ hlogs).2 formatted hformat
  obtain ⟨page, hpage, hshows⟩ := hpages 1 (by decide) (Nat.le_of_eq hcount.symm) (by decide)
  obtain ⟨hash, text, hhash, -, hmem⟩ := hshows.origin
  obtain ⟨e, -, he⟩ := List.mem_map.mp hmem
  obtain ⟨rfl, -⟩ := Prod.mk.inj he
  exact ⟨x, formatted, page, hx, hpage, hshows.status, hhash⟩

end Nouns.Proof
