import Nouns.Bots.Ticks
import Nouns.Lib.Watching

/-!
# What the bot tells of proposals

Of a proposal, a bot whose calls all come back follows one record after the other. What it tells
of them over any number of ticks is what somebody tells who watches: the statuses as they change,
and every vote that came since it first knew the proposal, once.
-/

namespace Nouns.Bots

open Watching

/-! ## One proposal -/

/-- The proposal an announcement is about. -/
def Announcement.proposal : Announcement → Option Nat
  | .newProposal p | .updatedProposalStatus p | .proposalAtRiskOfExpiry p => some p.id
  | .governanceVote p _ => some p.id
  | .newAuction _ | .newBid _ _ | .auctionEndingSoon _ => none

/-- What has been told of proposal `id`. -/
def Bot.toldOf (id : Nat) (bot : Bot) : List Announcement :=
  bot.sent.filter fun a => a.proposal = some id

/-- What is told of a record of a proposal of which another record is known. -/
def news (known : Proposal) (warned : Bool) (now : Int) (p : Proposal) : List Announcement :=
  (if known.status ≠ p.status then [.updatedProposalStatus p] else [])
    ++ (extractNewVotes known p).map (.governanceVote p)
    ++ (if isAtRiskOfExpiry now p = true ∧ warned = false then [.proposalAtRiskOfExpiry p] else [])

/-- What the bot has to do with a proposal: the record it has, if any, and what it has told. -/
structure Thread where
  known : Option Proposal
  warned : Bool
  told : List Announcement

/-- It goes on with another record. -/
def Thread.follow (t : Thread) (seen : Int × Proposal) : Thread :=
  match t.known with
  | none => ⟨some seen.2, t.warned, t.told ++ [.newProposal seen.2]⟩
  | some known => ⟨some seen.2, t.warned || isAtRiskOfExpiry seen.1 seen.2,
      t.told ++ news known t.warned seen.1 seen.2⟩

/-- What the bot has of proposal `id`. -/
def Bot.thread (id : Nat) (bot : Bot) : Thread :=
  ⟨bot.redis.proposals id, bot.redis.expiryWarningSent id, bot.toldOf id⟩

variable {id : Nat} {bot : Bot} {now : Int} {p known : Proposal} {warned : Bool}
  {proposals : List Proposal}

theorem mem_news {a : Announcement} (h : a ∈ news known warned now p) :
    a.proposal = some p.id := by
  rcases List.mem_append.mp h with h | h
  · rcases List.mem_append.mp h with h | h
    · split at h
      · rw [List.mem_singleton.mp h]
        rfl
      · exact absurd h List.not_mem_nil
    · obtain ⟨v, -, rfl⟩ := List.mem_map.mp h
      rfl
  · split at h
    · rw [List.mem_singleton.mp h]
      rfl
    · exact absurd h List.not_mem_nil

theorem toldOf_news {redis : Redis} : (⟨redis, bot.sent ++ news known warned now p⟩ : Bot).toldOf id
    = bot.toldOf id ++ if p.id = id then news known warned now p else [] := by
  unfold Bot.toldOf
  rw [List.filter_append]
  refine congrArg _ ?_
  split
  · next h =>
      exact List.filter_eq_self.mpr fun a ha => decide_eq_true (h ▸ mem_news ha)
  · next h =>
      refine List.filter_eq_nil_iff.mpr ?_
      intro a ha heq
      exact h (Option.some.inj ((mem_news ha).symm.trans (of_decide_eq_true heq)))

/-- What is done about a proposal that is new. -/
theorem processProposal_new (h : bot.redis.proposals p.id = none) :
    (processProposal allWork now p bot).1
      = ⟨{ bot.redis with proposals := Function.update bot.redis.proposals p.id (some p) },
        bot.sent ++ [.newProposal p]⟩ := by
  unfold processProposal
  rw [h]
  rfl

/-- What is done about a proposal that is known. -/
theorem processProposal_known (now : Int) (h : bot.redis.proposals p.id = some known) :
    ∃ warned, (processProposal allWork now p bot).1
        = ⟨{ bot.redis with
              proposals := Function.update bot.redis.proposals p.id (some p)
              expiryWarningSent := warned },
          bot.sent ++ news known (bot.redis.expiryWarningSent p.id) now p⟩
      ∧ warned p.id = (bot.redis.expiryWarningSent p.id || isAtRiskOfExpiry now p)
      ∧ ∀ i, i ≠ p.id → warned i = bot.redis.expiryWarningSent i := by
  by_cases hwarn : isAtRiskOfExpiry now p = true ∧ bot.redis.expiryWarningSent p.id = false
  · obtain ⟨hrisk, hwarned⟩ := hwarn
    refine ⟨Function.update bot.redis.expiryWarningSent p.id true, ?_, ?_, ?_⟩
    · unfold processProposal news
      rw [h]
      by_cases hstatus : known.status = p.status <;>
        simp [inTurn, whenever, handle, announceVotes, setProposalExpiryWarningSent,
          updateProposalCache, set, allWork, hstatus, hwarned, hrisk]
    · rw [Function.update_self, hrisk, Bool.or_true]
    · exact fun i hi => Function.update_of_ne hi _ _
  · refine ⟨bot.redis.expiryWarningSent, ?_, ?_, fun _ _ => rfl⟩
    · unfold processProposal news
      rw [h]
      by_cases hstatus : known.status = p.status <;>
        simp [inTurn, whenever, handle, announceVotes, updateProposalCache, set, allWork, hstatus,
          hwarn]
    · cases hrisk : isAtRiskOfExpiry now p
      · exact (Bool.or_false _).symm
      · rw [Bool.or_true]
        exact (Bool.not_eq_false _).mp fun hwarned => hwarn ⟨hrisk, hwarned⟩

/-! ## A tick -/

/-- A proposal is followed from one record to the next. -/
theorem processProposal_own (h : p.id = id) :
    (processProposal allWork now p bot).1.thread id = (bot.thread id).follow (now, p) := by
  subst h
  rcases hknown : bot.redis.proposals p.id with - | known
  · rw [processProposal_new hknown]
    have htold : (⟨{ bot.redis with
          proposals := Function.update bot.redis.proposals p.id (some p) },
        bot.sent ++ [.newProposal p]⟩ : Bot).toldOf p.id = bot.toldOf p.id ++ [.newProposal p] := by
      unfold Bot.toldOf
      rw [List.filter_append]
      simp [Announcement.proposal]
    unfold Bot.thread Thread.follow
    rw [htold]
    simp only [hknown, Function.update_self]
  · obtain ⟨warned, heq, hself, -⟩ := processProposal_known now hknown
    rw [heq]
    unfold Bot.thread Thread.follow
    rw [toldOf_news, if_pos rfl]
    simp only [hknown, hself, Function.update_self]

/-- Other proposals are left alone. -/
theorem processProposal_other (h : p.id ≠ id) :
    (processProposal allWork now p bot).1.thread id = bot.thread id := by
  rcases hknown : bot.redis.proposals p.id with - | known
  · rw [processProposal_new hknown]
    have htold : (⟨{ bot.redis with
          proposals := Function.update bot.redis.proposals p.id (some p) },
        bot.sent ++ [.newProposal p]⟩ : Bot).toldOf id = bot.toldOf id := by
      unfold Bot.toldOf
      rw [List.filter_append]
      simp [Announcement.proposal, h]
    unfold Bot.thread
    rw [htold]
    simp only [Function.update_of_ne (Ne.symm h)]
  · obtain ⟨warned, heq, -, hother⟩ := processProposal_known now hknown
    rw [heq]
    unfold Bot.thread
    rw [toldOf_news, if_neg h, List.append_nil]
    simp only [hother id (Ne.symm h), Function.update_of_ne (Ne.symm h)]

theorem processProposals_other (h : ∀ p ∈ proposals, p.id ≠ id) :
    (processGovernanceTick allWork now proposals bot).thread id = bot.thread id := by
  unfold processGovernanceTick
  induction proposals generalizing bot with
  | nil => rfl
  | cons p proposals ih =>
      rw [List.foldl_cons, ih fun q hq => h q (List.mem_cons_of_mem _ hq)]
      exact processProposal_other (h p List.mem_cons_self)

/-- The record of proposal `id`. -/
def record (id : Nat) (proposals : List Proposal) : Option Proposal :=
  proposals.find? fun p => p.id = id

theorem record_cons (q : Proposal) : record id (q :: proposals)
    = if q.id = id then some q else record id proposals := by
  unfold record
  rw [List.find?_cons]
  by_cases hq : q.id = id <;> simp [hq]

/-- **A tick, as one proposal sees it.** -/
theorem tick_thread (hnodup : (proposals.map Proposal.id).Nodup) :
    (processGovernanceTick allWork now proposals bot).thread id
      = match record id proposals with
        | none => bot.thread id
        | some p => (bot.thread id).follow (now, p) := by
  induction proposals generalizing bot with
  | nil => rfl
  | cons q proposals ih =>
      obtain ⟨hnot, hrest⟩ := List.nodup_cons.mp hnodup
      have htail : (processGovernanceTick allWork now (q :: proposals) bot).thread id
          = (processGovernanceTick allWork now proposals
            (processProposal allWork now q bot).1).thread id := rfl
      rw [htail, record_cons]
      by_cases hq : q.id = id
      · rw [if_pos hq, processProposals_other, processProposal_own hq]
        intro p hp heq
        exact hnot (List.mem_map.mpr ⟨p, hp, heq.trans hq.symm⟩)
      · rw [if_neg hq, ih hrest, processProposal_other hq]

/-! ## Many ticks -/

/-- A tick, with the time and the answer of the subgraph. -/
structure GovernancePoll where
  now : Int
  proposals : List Proposal
  nodup : (proposals.map Proposal.id).Nodup

/-- The ticks, one after the other. -/
def Bot.pollGovernance (bot : Bot) (polls : List GovernancePoll) : Bot :=
  polls.foldl (fun bot poll => processGovernanceTick allWork poll.now poll.proposals bot) bot

/-- The records of proposal `id`, with the times at which they are read. -/
def records (id : Nat) (polls : List GovernancePoll) : List (Int × Proposal) :=
  polls.filterMap fun poll => (record id poll.proposals).map (poll.now, ·)

/-- A proposal is followed through its records. -/
theorem polls_thread (polls : List GovernancePoll) (bot : Bot) :
    (bot.pollGovernance polls).thread id
      = (records id polls).foldl Thread.follow (bot.thread id) := by
  induction polls generalizing bot with
  | nil => rfl
  | cons poll polls ih =>
      have htail : (bot.pollGovernance (poll :: polls)).thread id
          = ((processGovernanceTick allWork poll.now poll.proposals bot).pollGovernance
            polls).thread id := rfl
      have hrecords : records id (poll :: polls)
          = ((record id poll.proposals).map (poll.now, ·)).toList ++ records id polls := by
        unfold records
        rw [List.filterMap_cons]
        cases record id poll.proposals <;> rfl
      rw [htail, ih, tick_thread poll.nodup, hrecords]
      cases record id poll.proposals <;> rfl

theorem record_none (h : ∀ p ∈ proposals, p.id ≠ id) : record id proposals = none :=
  List.find?_eq_none.mpr fun p hp heq => h p hp (of_decide_eq_true heq)

/-- What `setupGovernance` caches. -/
theorem setup_thread (hnodup : (proposals.map Proposal.id).Nodup) (bot : Bot) :
    (setupGovernance allWork proposals bot).thread id
      = { bot.thread id with known := (record id proposals).or (bot.thread id).known } := by
  unfold setupGovernance
  induction proposals generalizing bot with
  | nil => rfl
  | cons q proposals ih =>
      obtain ⟨hnot, hrest⟩ := List.nodup_cons.mp hnodup
      rw [List.foldl_cons, ih hrest, record_cons]
      by_cases hq : q.id = id
      · have hnone : record id proposals = none := by
          refine record_none ?_
          intro p hp heq
          exact hnot (List.mem_map.mpr ⟨p, hp, heq.trans hq.symm⟩)
        subst hq
        rw [hnone, if_pos rfl]
        exact congrArg (Thread.mk · _ _) (Function.update_self ..)
      · rw [if_neg hq]
        refine congrArg (Thread.mk · _ _) (congrArg (Option.or _) ?_)
        exact Function.update_of_ne (Ne.symm hq) _ _

/-! ## What is told in all -/

def statusTold : Announcement → Option ProposalStatus
  | .updatedProposalStatus p => some p.status
  | _ => none

def voteTold : Announcement → Option Vote
  | .governanceVote _ vote => some vote
  | _ => none

def warningTold : Announcement → Option Proposal
  | .proposalAtRiskOfExpiry p => some p
  | _ => none

/-- The records in which the proposal is about to expire. -/
def atRisk (seen : List (Int × Proposal)) : List Proposal :=
  (seen.filter fun s => isAtRiskOfExpiry s.1 s.2).map Prod.snd

/--
What is told of a proposal over the records `seen`, `known` being the record that was known
before. Its statuses are told as they change; a vote that was not known is told once, if it counts
any Noun; and of its expiry one warning is given, if none was given before.
-/
structure ToldOf (known : Proposal) (warned : Bool) (seen : List (Int × Proposal))
    (told : List Announcement) : Prop where
  statuses : told.filterMap statusTold
    = ((seen.map fun s => s.2.status).destutter' (· ≠ ·) known.status).tail
  votes : (told.filterMap voteTold).Perm
    ((fresh Vote.id known.votes ((seen.map fun s => s.2.votes).getLastD known.votes)).filter
      fun vote => 0 < vote.votes)
  warnings : told.filterMap warningTold = if warned then [] else (atRisk seen).take 1
  others : ∀ p, .newProposal p ∉ told

variable {seen : List (Int × Proposal)}

theorem news_filterMap {β : Type} (g : Announcement → Option β) :
    (news known warned now p).filterMap g
      = (if known.status ≠ p.status then (g (.updatedProposalStatus p)).toList else [])
        ++ (extractNewVotes known p).filterMap (fun vote => g (.governanceVote p vote))
        ++ (if isAtRiskOfExpiry now p = true ∧ warned = false
          then (g (.proposalAtRiskOfExpiry p)).toList else []) := by
  have hone : ∀ a : Announcement, [a].filterMap g = (g a).toList := by
    intro a
    rw [List.filterMap_cons, List.filterMap_nil]
    cases g a <;> rfl
  unfold news
  rw [List.filterMap_append, List.filterMap_append, List.filterMap_map, apply_ite (List.filterMap g),
    apply_ite (List.filterMap g), hone, hone, List.filterMap_nil]
  rfl

theorem news_statuses : (news known warned now p).filterMap statusTold
    = if known.status ≠ p.status then [p.status] else [] := by
  have hnone : (extractNewVotes known p).filterMap (fun vote => statusTold (.governanceVote p vote))
      = [] := List.filterMap_eq_nil_iff.mpr fun _ _ => rfl
  rw [news_filterMap, hnone, List.append_nil]
  exact (congrArg (_ ++ ·) (ite_self _)).trans (List.append_nil _)

theorem news_votes : (news known warned now p).filterMap voteTold
    = (fresh Vote.id known.votes p.votes).filter fun vote => 0 < vote.votes := by
  have hall : (extractNewVotes known p).filterMap (fun vote => voteTold (.governanceVote p vote))
      = extractNewVotes known p := List.filterMap_some
  have hfresh : extractNewVotes known p
      = (fresh Vote.id known.votes p.votes).filter fun vote => 0 < vote.votes := by
    unfold extractNewVotes fresh
    rw [List.filter_filter]
    refine List.filter_congr ?_
    intro vote _
    rw [Bool.decide_and, Bool.and_comm]
  rw [news_filterMap, hall, hfresh]
  simp [voteTold]

theorem news_warnings : (news known warned now p).filterMap warningTold
    = if isAtRiskOfExpiry now p = true ∧ warned = false then [p] else [] := by
  have hnone : (extractNewVotes known p).filterMap (fun vote => warningTold (.governanceVote p vote))
      = [] := List.filterMap_eq_nil_iff.mpr fun _ _ => rfl
  rw [news_filterMap, hnone, List.append_nil]
  exact congrArg (· ++ _) (ite_self _)

theorem not_mem_news (q : Proposal) : .newProposal q ∉ news known warned now p := by
  intro h
  rcases List.mem_append.mp h with h | h
  · rcases List.mem_append.mp h with h | h
    · split at h
      · cases List.mem_singleton.mp h
      · cases h
    · obtain ⟨_, _, heq⟩ := List.mem_map.mp h
      cases heq
  · split at h
    · cases List.mem_singleton.mp h
    · cases h

/-- What was told before makes no difference. -/
theorem follow_frame (known : Option Proposal) (warned : Bool) (told : List Announcement)
    (seen : List (Int × Proposal)) : (seen.foldl Thread.follow ⟨known, warned, told⟩).told
      = told ++ (seen.foldl Thread.follow ⟨known, warned, []⟩).told := by
  induction seen generalizing known warned told with
  | nil => exact (List.append_nil _).symm
  | cons s seen ih =>
      rw [List.foldl_cons, List.foldl_cons]
      cases known with
      | none =>
          show (seen.foldl Thread.follow ⟨some s.2, warned, told ++ [.newProposal s.2]⟩).told = _
          rw [ih, List.append_assoc]
          refine congrArg (told ++ ·) ?_
          exact (ih _ _ [.newProposal s.2]).symm
      | some known =>
          show (seen.foldl Thread.follow ⟨some s.2, _, told ++ news known warned s.1 s.2⟩).told = _
          rw [ih, List.append_assoc]
          refine congrArg (told ++ ·) ?_
          exact (ih _ _ (news known warned s.1 s.2)).symm

theorem follow_some (t : Thread) (h : t.known.isSome = true) (s : Int × Proposal) :
    ∃ known, t.known = some known
      ∧ t.follow s = ⟨some s.2, t.warned || isAtRiskOfExpiry s.1 s.2,
        t.told ++ news known t.warned s.1 s.2⟩ := by
  obtain ⟨known, hknown⟩ := Option.isSome_iff_exists.mp h
  refine ⟨known, hknown, ?_⟩
  unfold Thread.follow
  rw [hknown]

/-- Over any number of records, the warnings told. -/
theorem follow_warnings (known : Proposal) (warned : Bool) (seen : List (Int × Proposal)) :
    (seen.foldl Thread.follow ⟨some known, warned, []⟩).told.filterMap warningTold
      = if warned then [] else (atRisk seen).take 1 := by
  induction seen generalizing known warned with
  | nil => cases warned <;> rfl
  | cons s seen ih =>
      have hstep : Thread.follow ⟨some known, warned, []⟩ s
          = ⟨some s.2, warned || isAtRiskOfExpiry s.1 s.2, news known warned s.1 s.2⟩ := rfl
      have hrisk : atRisk (s :: seen)
          = if isAtRiskOfExpiry s.1 s.2 then s.2 :: atRisk seen else atRisk seen := by
        unfold atRisk
        rw [List.filter_cons]
        split <;> rfl
      rw [List.foldl_cons, hstep, follow_frame, List.filterMap_append, ih, news_warnings, hrisk]
      cases warned <;> cases isAtRiskOfExpiry s.1 s.2 <;> simp

theorem follow_known (t : Thread) (s : Int × Proposal) (h : t.known.isSome = true) :
    (t.follow s).known.isSome = true := by
  obtain ⟨_, _, heq⟩ := follow_some t h s
  rw [heq]
  rfl

/-- Over any number of records, the statuses told. -/
theorem follow_statuses (known : Proposal) (warned : Bool) (seen : List (Int × Proposal)) :
    (seen.foldl Thread.follow ⟨some known, warned, []⟩).told.filterMap statusTold
      = ((seen.map fun s => s.2.status).destutter' (· ≠ ·) known.status).tail := by
  have hstep : ∀ (t : Thread) (s : Int × Proposal), t.known.isSome = true →
      (t.follow s).told.filterMap statusTold = t.told.filterMap statusTold
          ++ (if t.known.elim .pending Proposal.status ≠ s.2.status then [s.2.status] else [])
        ∧ (t.follow s).known.elim .pending Proposal.status = s.2.status := by
    intro t s h
    obtain ⟨known, hknown, heq⟩ := follow_some t h s
    rw [heq, List.filterMap_append, news_statuses, hknown]
    exact ⟨rfl, rfl⟩
  have hwatch := foldl_watch (R := (· ≠ ·)) Thread.follow (fun t => t.known.isSome = true)
    (fun t => t.known.elim .pending Proposal.status) (fun t => t.told.filterMap statusTold)
    (fun s => some s.2.status) follow_known ?_ ?_ (s := ⟨some known, warned, []⟩) rfl seen
  · rw [watch_eq, List.filterMap_eq_map'] at hwatch
    exact hwatch
  · intro t s h hsame
    obtain ⟨htold, hknown⟩ := hstep t s h
    have heq := not_not.mp (hsame _ rfl)
    refine ⟨?_, hknown.trans heq.symm⟩
    rw [htold, if_neg (not_not.mpr heq), List.append_nil]
  · intro t s v h hv hne
    obtain ⟨htold, hknown⟩ := hstep t s h
    obtain rfl := Option.some.inj hv
    refine ⟨?_, hknown⟩
    rw [htold, if_pos hne]

/-- Over any number of records, the votes told. -/
theorem follow_votes (known : Proposal) (warned : Bool) (seen : List (Int × Proposal)) :
    (seen.foldl Thread.follow ⟨some known, warned, []⟩).told.filterMap voteTold
      = (reports Vote.id known.votes (seen.map fun s => s.2.votes)).filter
        fun vote => 0 < vote.votes := by
  refine foldl_reports Thread.follow (fun t => t.known.isSome = true)
    (fun t => t.known.elim [] Proposal.votes) (fun t => t.told.filterMap voteTold)
    (fun s => s.2.votes) _ follow_known ?_ (s := ⟨some known, warned, []⟩) rfl seen
  intro t s h
  obtain ⟨known, hknown, heq⟩ := follow_some t h s
  rw [heq, List.filterMap_append, news_votes, hknown]
  exact ⟨rfl, rfl⟩

theorem follow_others (known : Proposal) (warned : Bool) (seen : List (Int × Proposal))
    (q : Proposal) :
    .newProposal q ∉ (seen.foldl Thread.follow ⟨some known, warned, []⟩).told := by
  induction seen generalizing known warned with
  | nil => exact List.not_mem_nil
  | cons s seen ih =>
      have hstep : Thread.follow ⟨some known, warned, []⟩ s
          = ⟨some s.2, warned || isAtRiskOfExpiry s.1 s.2, news known warned s.1 s.2⟩ := rfl
      rw [List.foldl_cons, hstep, follow_frame, List.mem_append]
      exact not_or.mpr ⟨not_mem_news q, ih _ _⟩

/-- **Following a proposal.** -/
theorem follow_told (hgrows : (known.votes :: seen.map fun s => s.2.votes).IsChain (Grows Vote.id)) :
    ToldOf known warned seen (seen.foldl Thread.follow ⟨some known, warned, []⟩).told where
  statuses := follow_statuses known warned seen
  votes := by
    rw [follow_votes]
    exact (reports_perm Vote.id hgrows).filter _
  warnings := follow_warnings known warned seen
  others := follow_others known warned seen

/-! ## From the start on -/

/--
What has been told of a proposal since the bot was set up, `known` being the record it had then.
One that it had none of is new at its first record.
-/
def ToldSince (warned : Bool) (known : Option Proposal) (seen : List (Int × Proposal))
    (told : List Announcement) : Prop :=
  match known, seen with
  | some known, seen => ToldOf known warned seen told
  | none, [] => told = []
  | none, first :: seen => ∃ later, told = .newProposal first.2 :: later
      ∧ ToldOf first.2 warned seen later

theorem follow_since (known : Option Proposal) (warned : Bool) (seen : List (Int × Proposal))
    (hgrows : (known.toList.map Proposal.votes ++ seen.map fun s => s.2.votes).IsChain
      (Grows Vote.id)) :
    ToldSince warned known seen (seen.foldl Thread.follow ⟨known, warned, []⟩).told := by
  cases known with
  | some known => exact follow_told hgrows
  | none =>
      cases seen with
      | nil => rfl
      | cons first seen =>
          refine ⟨(seen.foldl Thread.follow ⟨some first.2, warned, []⟩).told, ?_, follow_told hgrows⟩
          exact follow_frame (some first.2) warned [.newProposal first.2] seen

/--
**What the bot tells of proposals.** Whatever it had cached and told before, it is set up with some
proposals and then ticks any number of times, one tick with all its work after the other, and all
its calls come back. If votes do not go away, it tells of every proposal what is to be told since it
was set up: no status, vote or warning is lost and none is told twice.
-/
theorem proposals_told (bot : Bot) (proposals : List Proposal) (polls : List GovernancePoll)
    (id : Nat) (hnodup : (proposals.map Proposal.id).Nodup)
    (hgrows : (((record id proposals).or (bot.redis.proposals id)).toList.map Proposal.votes
      ++ (records id polls).map fun s => s.2.votes).IsChain (Grows Vote.id)) :
    ∃ told, ((setupGovernance allWork proposals bot).pollGovernance polls).toldOf id
        = bot.toldOf id ++ told
      ∧ ToldSince (bot.redis.expiryWarningSent id)
        ((record id proposals).or (bot.redis.proposals id)) (records id polls) told := by
  have hthread : ((setupGovernance allWork proposals bot).pollGovernance polls).thread id = _ :=
    polls_thread polls _
  rw [setup_thread hnodup] at hthread
  exact ⟨_, (congrArg Thread.told hthread).trans (follow_frame _ _ _ _), follow_since _ _ _ hgrows⟩

/-- A proposal with some votes, each of one Noun but the last. -/
def smallProposal (id : Nat) (status : ProposalStatus) (votes : List String) : Proposal where
  id := id
  proposer := ⟨"0x01"⟩
  description := "# Fund"
  status := status
  quorumVotes := 1
  proposalThreshold := 1
  startBlock := 10
  endBlock := 20
  executionETA := 1000000
  votes := votes.map fun voter => ⟨voter, ⟨voter⟩, if voter = "z" then 0 else 1, .for_, none⟩

/-- Proposal 1 is known from the start, and gets two votes before it is queued. -/
def smallPolls : List GovernancePoll :=
  [⟨0, [smallProposal 1 .active ["a", "b"]], by decide⟩,
    ⟨60, [smallProposal 1 .active ["a", "b"], smallProposal 2 .pending []], by decide⟩,
    ⟨2100000, [smallProposal 1 .queued ["c", "a", "z", "b"], smallProposal 2 .active ["a"]], by decide⟩,
    ⟨2100060, [smallProposal 1 .queued ["c", "a", "z", "b"], smallProposal 2 .active ["a"]], by decide⟩]

/-- The votes of `b` and `c` are told of, the vote of `a` was known, and that of `z` counts none. -/
theorem proposals_told_small : ∃ told,
    ((setupGovernance allWork [smallProposal 1 .active ["a"]]
        ⟨⟨none, none, none, fun _ => none, fun _ => false⟩, []⟩).pollGovernance
          smallPolls).toldOf 1 = told
      ∧ told.filterMap statusTold = [.queued]
      ∧ ((told.filterMap voteTold).map Vote.id).Perm ["c", "b"]
      ∧ told.filterMap warningTold = [smallProposal 1 .queued ["c", "a", "z", "b"]] := by
  have hgrows : (((record 1 [smallProposal 1 .active ["a"]]).or none).toList.map Proposal.votes
      ++ (records 1 smallPolls).map fun s => s.2.votes).IsChain (Grows Vote.id) := by
    refine List.isChain_cons_cons.mpr ⟨⟨by decide, by decide⟩, List.isChain_cons_cons.mpr
      ⟨⟨by decide, by decide⟩, List.isChain_cons_cons.mpr ⟨⟨by decide, by decide⟩,
      List.isChain_cons_cons.mpr ⟨⟨by decide, by decide⟩, List.isChain_singleton _⟩⟩⟩⟩
  obtain ⟨told, htold, h⟩ := proposals_told
    ⟨⟨none, none, none, fun _ => none, fun _ => false⟩, []⟩ [smallProposal 1 .active ["a"]] smallPolls 1
    (by decide) hgrows
  exact ⟨told, htold, h.statuses, h.votes.map Vote.id, h.warnings⟩

end Nouns.Bots
