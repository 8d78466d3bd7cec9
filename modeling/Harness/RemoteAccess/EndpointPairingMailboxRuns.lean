import Harness.RemoteAccess.EndpointPairingMailboxSound

namespace Harness.RemoteAccess

open Harness.Foundation
open Attempt
open EndpointOwnedPairingMailbox

structure History where
  mailbox : EndpointOwnedPairingMailbox
  events : List Event

namespace History

def empty : History := ⟨.empty, []⟩

def step (history : History) (op : Op) : History × Except MailboxError Reply :=
  (⟨(perform op history.mailbox).2, history.events ++
    [⟨history.mailbox, op, (perform op history.mailbox).1⟩]⟩, (perform op history.mailbox).1)

/-- An eviction wiped the messages of the record, which has been there ever since. -/
def Overwritten (history : History) (pendingPairingId : PendingPairingId) : Prop :=
  ∃ old event new, history.events = old ++ event :: new ∧ event.Wipes pendingPairingId ∧
    ∀ later ∈ new, (later.before.pending.get? pendingPairingId).isSome = true

/-- A message 1 that would open a record does not do so for a challenge id that a record has, a
Desktop does not read its wiped record, and it does not deliver authority to its disabled record. -/
def Clean (history : History) : Op → Prop
  | .submitMessage1 input => isOpaque input.message1 = true →
      history.mailbox.completion? input.completionId = none →
      ∀ challenge, history.mailbox.challenges.get? input.challengeId = some challenge →
        challenge.accountId = input.accountId → input.now ≤ challenge.expiresAt →
          challenge.completionId = none → history.mailbox.pending.get? input.allocated = none →
            ∀ key record, history.mailbox.pending.get? key = some record →
              record.challengeId ≠ input.challengeId
  | .readDesktop pendingPairingId accountId desktopInstallationId =>
      ∀ record, history.mailbox.pending.get? pendingPairingId = some record →
        record.isOwnedBy accountId desktopInstallationId = true →
          ¬ history.Overwritten pendingPairingId
  | .deliverSealedAuthority input => isOpaque input.sealedRelayAuthority = true →
      ∀ record, history.mailbox.pending.get? input.pendingPairingId = some record →
        record.isOwnedBy input.accountId input.desktopInstallationId = true →
          record.confirmed = true → record.rejected = false
  | _ => True

end History

def exchangeOf (parties : Parties) (events : List Event) : Exchange :=
  ⟨events.filterMap (·.accepted parties)⟩

theorem exchangeOf_quiet {parties : Parties} (events : List Event) {event : Event}
    (h : event.accepted parties = none) :
    exchangeOf parties (events ++ [event]) = exchangeOf parties events := by
  unfold exchangeOf
  rw [List.filterMap_append, List.filterMap_cons_none (f := fun event : Event => event.accepted parties) h, List.filterMap_nil, List.append_nil]

theorem exchangeOf_snoc {parties : Parties} (events : List Event) {event : Event} {accepted : Accepted}
    (h : event.accepted parties = some accepted) :
    exchangeOf parties (events ++ [event]) = (exchangeOf parties events).snoc accepted := by
  unfold exchangeOf Exchange.snoc
  rw [List.filterMap_append, List.filterMap_cons_some (f := fun event : Event => event.accepted parties) h, List.filterMap_nil]

def Holds (wiped : Prop) (held first : Option Bytes) : Prop :=
  held = first ∨ wiped ∧ held = first.map wipe

namespace Holds

variable {wiped wiped' : Prop} {held first : Option Bytes}

theorem mono (h : Holds wiped held first) (hwiped : wiped → wiped') : Holds wiped' held first :=
  h.imp_right fun h => ⟨hwiped h.1, h.2⟩

theorem or (h : Holds wiped held first) (given : Option Bytes) :
    Holds wiped (held.or given) (first.or given) := by
  cases first with
  | none =>
    obtain rfl : held = none := h.elim id fun h => h.2
    exact .inl rfl
  | some bytes =>
    rcases h with rfl | ⟨hwiped, rfl⟩
    · exact .inl rfl
    · exact .inr ⟨hwiped, rfl⟩

theorem wipe_wipe (bytes : Bytes) : wipe (wipe bytes) = wipe bytes := by
  unfold wipe
  rw [List.map_map]
  rfl

theorem wipe (h : Holds wiped held first) (hwiped : wiped') :
    Holds wiped' (held.map RemoteAccess.wipe) first := by
  right
  refine ⟨hwiped, ?_⟩
  rcases h with rfl | ⟨-, rfl⟩
  · rfl
  · rw [Option.map_map]
    congr 1
    funext bytes
    exact wipe_wipe bytes

theorem isSome (h : Holds wiped held first) : held.isSome = first.isSome := by
  rcases h with rfl | ⟨-, rfl⟩
  · rfl
  · exact Option.isSome_map

theorem eq (h : Holds wiped held first) (hwiped : ¬ wiped) : held = first :=
  h.resolve_right fun h => hwiped h.1

end Holds

structure Tracks (since : List Event) (message1 : Bytes) (record : EndpointPairingMailboxPending) :
    Prop where
  message1 : Holds (∃ event ∈ since, event.Wipes record.pendingPairingId) (some record.message1)
    (some message1)
  message2 : Holds (∃ event ∈ since, event.Wipes record.pendingPairingId) record.message2
    (exchangeOf record.parties since).message2
  message3 : Holds (∃ event ∈ since, event.Wipes record.pendingPairingId) record.message3
    (exchangeOf record.parties since).message3
  pairingId : record.pairingId = (exchangeOf record.parties since).pairingId
  confirmed : record.confirmed = record.pairingId.isSome
  authority : record.sealedRelayAuthority =
    if record.rejected then none else (exchangeOf record.parties since).authority
  inOrder : (exchangeOf record.parties since).InOrder
  wiped : (∃ event ∈ since, event.Wipes record.pendingPairingId) → record.rejected = true
  retained : ∀ event ∈ since,
    (event.before.pending.get? record.pendingPairingId).isSome = true
  settled : ∀ event ∈ since, ∀ earlier,
    event.before.pending.get? record.pendingPairingId = some earlier → earlier.rejected = true →
      record.rejected = true ∧ record.confirmed = earlier.confirmed

namespace Tracks

theorem opened {message1 : Bytes} {record : EndpointPairingMailboxPending}
    {input : Message1Input} {challenge : EndpointPairingMailboxChallenge}
    (hrecord : record = openRecord input challenge) (hmessage1 : message1 = input.message1) :
    Tracks [] message1 record := by
  subst hrecord hmessage1
  exact {
    message1 := .inl rfl
    message2 := .inl rfl
    message3 := .inl rfl
    pairingId := rfl
    confirmed := rfl
    authority := rfl
    inOrder := Exchange.inOrder_nil
    wiped := fun ⟨_, hmem, _⟩ => absurd hmem List.not_mem_nil
    retained := fun _ hmem => absurd hmem List.not_mem_nil
    settled := fun _ hmem => absurd hmem List.not_mem_nil }

variable {since : List Event} {message1 : Bytes} {record next : EndpointPairingMailboxPending}
  {event : Event}

theorem rejected_of_advances (h : Advances event record next) (hrejected : record.rejected = true) :
    next.rejected = true ∧ next.confirmed = record.confirmed := by
  cases h with
  | confirmed pairingId settledAt _ _ hlive =>
    rw [hrejected] at hlive
    cases hlive
  | expired now _ _ hexpired =>
    unfold EndpointPairingMailboxPending.isExpired at hexpired
    rw [hrejected, Bool.not_true, Bool.and_false, Bool.false_and] at hexpired
    cases hexpired
  | rejected => exact ⟨rfl, rfl⟩
  | disabled => exact ⟨rfl, rfl⟩
  | _ => exact ⟨hrejected, rfl⟩

theorem retained_snoc (h : Tracks since message1 record) (hadvances : Advances event record next)
    (hbefore : event.before.pending.get? record.pendingPairingId = some record) :
    ∀ later ∈ since ++ [event],
      (later.before.pending.get? next.pendingPairingId).isSome = true := by
  have hid : next.pendingPairingId = record.pendingPairingId :=
    congrArg Parties.pendingPairingId hadvances.parties
  intro later hmem
  rw [hid]
  rcases List.mem_append.mp hmem with hold | hnew
  · exact h.retained later hold
  · obtain rfl := List.mem_singleton.mp hnew
    rw [hbefore]
    rfl

theorem settled_snoc (h : Tracks since message1 record) (hadvances : Advances event record next)
    (hbefore : event.before.pending.get? record.pendingPairingId = some record) :
    ∀ later ∈ since ++ [event], ∀ earlier,
      later.before.pending.get? next.pendingPairingId = some earlier → earlier.rejected = true →
        next.rejected = true ∧ next.confirmed = earlier.confirmed := by
  have hid : next.pendingPairingId = record.pendingPairingId :=
    congrArg Parties.pendingPairingId hadvances.parties
  intro later hmem earlier hget hrejected
  rw [hid] at hget
  rcases List.mem_append.mp hmem with hold | hnew
  · obtain ⟨hsame, hconfirmed⟩ := h.settled later hold earlier hget hrejected
    obtain ⟨hnext, heq⟩ := rejected_of_advances hadvances hsame
    exact ⟨hnext, heq.trans hconfirmed⟩
  · obtain rfl := List.mem_singleton.mp hnew
    rw [hbefore] at hget
    cases hget
    exact rejected_of_advances hadvances hrejected

theorem authority_none (h : Tracks since message1 record) (hconfirmed : record.confirmed = false) :
    (exchangeOf record.parties since).authority = none := by
  apply Exchange.isSome_none_of h.inOrder.confirmed
  rw [← h.pairingId]
  have hnone := h.confirmed.symm.trans hconfirmed
  rwa [Option.isSome_eq_false_iff, Option.isNone_iff_eq_none] at hnone

theorem sealed_none (h : Tracks since message1 record) (hconfirmed : record.confirmed = false) :
    record.sealedRelayAuthority = none := by
  rw [h.authority, h.authority_none hconfirmed]
  split <;> rfl

theorem not_wipes_of_accepted {accepted : Accepted} {pendingPairingId : PendingPairingId}
    {parties : Parties} (h : event.accepted parties = some accepted) :
    ¬ event.Wipes pendingPairingId := by
  rintro ⟨now, replayRetentionMs, record, hop, -⟩
  have hnames := names_of_accepted h
  rw [hop] at hnames
  exact hnames

theorem wipes_snoc {pendingPairingId : PendingPairingId} (h : ¬ event.Wipes pendingPairingId) :
    (∃ later ∈ since ++ [event], later.Wipes pendingPairingId) ↔
      ∃ earlier ∈ since, earlier.Wipes pendingPairingId := by
  constructor
  · rintro ⟨later, hmem, hlater⟩
    rcases List.mem_append.mp hmem with hold | hnew
    · exact ⟨later, hold, hlater⟩
    · obtain rfl := List.mem_singleton.mp hnew
      exact absurd hlater h
  · rintro ⟨earlier, hmem, hearlier⟩
    exact ⟨earlier, List.mem_append_left _ hmem, hearlier⟩

theorem accepts (h : Tracks since message1 record) {accepted : Accepted}
    (haccepted : event.accepted record.parties = some accepted)
    (hlive : ∀ bytes, accepted = .authority bytes → record.rejected = false) :
    Holds (∃ later ∈ since ++ [event], later.Wipes record.pendingPairingId)
        (record.message2.or accepted.message2?)
        (exchangeOf record.parties (since ++ [event])).message2 ∧
      Holds (∃ later ∈ since ++ [event], later.Wipes record.pendingPairingId)
        (record.message3.or accepted.message3?)
        (exchangeOf record.parties (since ++ [event])).message3 ∧
      record.pairingId.or accepted.pairingId? =
        (exchangeOf record.parties (since ++ [event])).pairingId ∧
      record.sealedRelayAuthority.or accepted.authority? =
        if record.rejected then none
        else (exchangeOf record.parties (since ++ [event])).authority := by
  rw [exchangeOf_snoc since haccepted, Exchange.message2_snoc, Exchange.message3_snoc,
    Exchange.pairingId_snoc, Exchange.authority_snoc, wipes_snoc (not_wipes_of_accepted haccepted),
    h.pairingId, h.authority]
  refine ⟨h.message2.or _, h.message3.or _, rfl, ?_⟩
  cases hrejected : record.rejected with
  | false => rfl
  | true =>
    cases accepted with
    | authority bytes =>
      rw [hlive bytes rfl] at hrejected
      cases hrejected
    | _ => rfl

theorem advance (h : Tracks since message1 record) (hadvances : Advances event record next)
    (hbefore : event.before.pending.get? record.pendingPairingId = some record)
    (hlive : ∀ bytes, event.accepted record.parties = some (.authority bytes) →
      record.rejected = false) : Tracks (since ++ [event]) message1 next := by
  have hretained := h.retained_snoc hadvances hbefore
  have hsettled := h.settled_snoc hadvances hbefore
  have hwipes : (∃ event ∈ since, event.Wipes record.pendingPairingId) →
      ∃ later ∈ since ++ [event], later.Wipes record.pendingPairingId := by
    rintro ⟨earlier, hmem, hearlier⟩
    exact ⟨earlier, List.mem_append_left _ hmem, hearlier⟩
  have hfirst := h.message1
  have hwiped := h.wiped
  cases hadvances with
  | quiet haccepted hnot =>
    obtain ⟨h1, h2, h3, h4, h5, h6, h7, h8, -, -⟩ := h
    rw [← wipes_snoc hnot] at h1 h2 h3 h8
    rw [← exchangeOf_quiet since haccepted] at h2 h3 h4 h6 h7
    exact ⟨h1, h2, h3, h4, h5, h6, h7, h8, hretained, hsettled⟩
  | message2 bytes haccepted =>
    obtain ⟨hsecond, hthird, hpairing, hauthority⟩ := h.accepts haccepted (by rintro _ ⟨⟩)
    simp only [Accepted.message3?, Accepted.pairingId?, Accepted.authority?, Option.or_none] at hthird hpairing hauthority
    rw [← wipes_snoc (not_wipes_of_accepted haccepted)] at hfirst hwiped
    exact ⟨hfirst, hsecond, hthird, hpairing, h.confirmed, hauthority,
      exchangeOf_snoc since haccepted ▸ h.inOrder.snoc trivial, hwiped, hretained, hsettled⟩
  | message3 bytes haccepted hmessage2 =>
    obtain ⟨hsecond, hthird, hpairing, hauthority⟩ := h.accepts haccepted (by rintro _ ⟨⟩)
    simp only [Accepted.message2?, Accepted.pairingId?, Accepted.authority?, Option.or_none] at hsecond hpairing hauthority
    rw [← wipes_snoc (not_wipes_of_accepted haccepted)] at hfirst hwiped
    exact ⟨hfirst, hsecond, hthird, hpairing, h.confirmed, hauthority,
      exchangeOf_snoc since haccepted ▸ h.inOrder.snoc (h.message2.isSome.symm.trans hmessage2),
      hwiped, hretained, hsettled⟩
  | confirmed pairingId settledAt haccepted hmessage3 hrejected hsame =>
    obtain ⟨hsecond, hthird, hpairing, hauthority⟩ := h.accepts haccepted (by rintro _ ⟨⟩)
    simp only [Accepted.message2?, Accepted.message3?, Accepted.authority?, Option.or_none] at hsecond hthird hauthority
    rw [← wipes_snoc (not_wipes_of_accepted haccepted)] at hfirst hwiped
    have hid : record.pairingId.or (some pairingId) = some pairingId := by
      cases hheld : record.pairingId with
      | none => rfl
      | some held =>
        have hconfirmed := h.confirmed
        rw [hheld] at hconfirmed hsame
        exact hsame hconfirmed
    exact ⟨hfirst, hsecond, hthird, hid.symm.trans hpairing, rfl, hauthority,
      exchangeOf_snoc since haccepted ▸ h.inOrder.snoc (h.message3.isSome.symm.trans hmessage3),
      hwiped, hretained, hsettled⟩
  | authority bytes haccepted hconfirmed =>
    obtain ⟨hsecond, hthird, hpairing, hauthority⟩ := h.accepts haccepted
      fun bytes heq => hlive bytes (haccepted.trans (congrArg some heq))
    simp only [Accepted.message2?, Accepted.message3?, Accepted.pairingId?, Option.or_none] at hsecond hthird hpairing
    rw [← wipes_snoc (not_wipes_of_accepted haccepted)] at hfirst hwiped
    have hallowed : (exchangeOf record.parties since).pairingId.isSome = true := by
      rw [← h.pairingId, ← h.confirmed, hconfirmed]
    exact ⟨hfirst, hsecond, hthird, hpairing, h.confirmed, hauthority,
      exchangeOf_snoc since haccepted ▸ h.inOrder.snoc hallowed, hwiped, hretained, hsettled⟩
  | rejected settledAt haccepted hconfirmed =>
    have hsealed := h.sealed_none hconfirmed
    obtain ⟨h1, h2, h3, h4, h5, h6, h7, h8, -, -⟩ := h
    rw [← exchangeOf_quiet since haccepted] at h2 h3 h4 h6 h7
    exact ⟨h1.mono hwipes, h2.mono hwipes, h3.mono hwipes, h4, h5, hsealed, h7, fun _ => rfl,
      hretained, hsettled⟩
  | expired now haccepted hwipe hexpired =>
    have hlast : ∃ later ∈ since ++ [event], later.Wipes record.pendingPairingId :=
      ⟨event, List.mem_append_right _ List.mem_cons_self, hwipe⟩
    have hexpire : record.expire now = { record with
        rejected := true
        settledAt := some now
        message1 := wipe record.message1
        message2 := record.message2.map wipe
        message3 := record.message3.map wipe } := if_pos hexpired
    rw [hexpire] at hretained hsettled ⊢
    have hconfirmed : record.confirmed = false := by
      unfold EndpointPairingMailboxPending.isExpired at hexpired
      rw [Bool.and_eq_true, Bool.and_eq_true, Bool.not_eq_true'] at hexpired
      exact hexpired.1.1
    have hsealed := h.sealed_none hconfirmed
    obtain ⟨h1, h2, h3, h4, h5, h6, h7, h8, -, -⟩ := h
    rw [← exchangeOf_quiet since haccepted] at h2 h3 h4 h6 h7
    exact ⟨h1.wipe hlast, h2.wipe hlast, h3.wipe hlast, h4, h5, hsealed, h7, fun _ => rfl,
      hretained, hsettled⟩
  | disabled now haccepted =>
    obtain ⟨h1, h2, h3, h4, h5, h6, h7, h8, -, -⟩ := h
    rw [← exchangeOf_quiet since haccepted] at h2 h3 h4 h6 h7
    exact ⟨h1.mono hwipes, h2.mono hwipes, h3.mono hwipes, h4, h5, rfl, h7, fun _ => rfl,
      hretained, hsettled⟩

end Tracks

structure Traced (history : History) (record : EndpointPairingMailboxPending) (old : List Event)
    (opening : Event) (since : List Event) (first : EndpointPairingMailboxPending) : Prop where
  events : history.events = old ++ opening :: since
  opens : Opens opening first
  parties : record.parties = first.parties
  tracks : Tracks since first.message1 record

theorem Traced.grow {history : History} {record next : EndpointPairingMailboxPending} {old since : List Event}
    {opening event : Event} {first : EndpointPairingMailboxPending} {mailbox : EndpointOwnedPairingMailbox}
    (h : Traced history record old opening since first) (hadvances : Advances event record next)
    (hbefore : event.before.pending.get? record.pendingPairingId = some record)
    (hlive : ∀ bytes, event.accepted record.parties = some (.authority bytes) →
      record.rejected = false) :
    Traced ⟨mailbox, history.events ++ [event]⟩ next old opening (since ++ [event]) first where
  events := by
    rw [h.events, List.append_assoc, List.cons_append]
  opens := h.opens
  parties := hadvances.parties.trans h.parties
  tracks := h.tracks.advance hadvances hbefore hlive

structure History.Sound (history : History) : Prop where
  aligned : Aligned history.mailbox
  carried : ∀ key record, history.mailbox.pending.get? key = some record →
    ∃ old opening since first, Traced history record old opening since first
  apart : ∀ key other record found, history.mailbox.pending.get? key = some record →
    history.mailbox.pending.get? other = some found → record.challengeId = found.challengeId →
      key = other

namespace History

theorem empty_sound : Sound .empty where
  aligned := empty_aligned
  carried := fun _ _ h => by cases h
  apart := fun _ _ _ _ h => by cases h

theorem ends_const {α : Type} {x : Mailed α} {P : Prop} {mailbox : EndpointOwnedPairingMailbox}
    (h : P) : Ends x (fun _ _ => P) (fun _ _ => True) mailbox := by
  unfold Attempt.Ends
  split
  · exact h
  · trivial

theorem opaque_of_delivered {input : AuthorityInput} {mailbox after : EndpointOwnedPairingMailbox}
    {reply : Reply} (h : perform (.deliverSealedAuthority input) mailbox = (.ok reply, after)) :
    isOpaque input.sealedRelayAuthority = true := by
  have hends : Ends (perform (.deliverSealedAuthority input))
      (fun _ _ => isOpaque input.sealedRelayAuthority = true) (fun _ _ => True) mailbox := by
    apply ends_map.mpr
    apply ends_bind.mpr
    exact ends_guarded.mpr ⟨fun hopaque => ends_const hopaque, fun _ => trivial⟩
  exact hends.ok h

variable {history : History} {op : Op}

theorem live_of_clean (hclean : history.Clean op)
    {reply : Reply} {after : EndpointOwnedPairingMailbox}
    (hperform : perform op history.mailbox = (.ok reply, after))
    {record next : EndpointPairingMailboxPending}
    (hget : history.mailbox.pending.get? record.pendingPairingId = some record)
    (hadvances : Advances ⟨history.mailbox, op, .ok reply⟩ record next) {bytes : Bytes}
    (haccepted : Event.accepted ⟨history.mailbox, op, .ok reply⟩ record.parties =
      some (.authority bytes)) : record.rejected = false := by
  have hconfirmed : record.confirmed = true := by
    cases hadvances with
    | authority _ _ hconfirmed => exact hconfirmed
    | quiet hother => exact absurd (haccepted.symm.trans hother) nofun
    | message2 _ hother => exact absurd (haccepted.symm.trans hother) nofun
    | message3 _ hother => exact absurd (haccepted.symm.trans hother) nofun
    | confirmed _ _ hother => exact absurd (haccepted.symm.trans hother) nofun
    | rejected _ hother => exact absurd (haccepted.symm.trans hother) nofun
    | expired _ hother => exact absurd (haccepted.symm.trans hother) nofun
    | disabled _ hother => exact absurd (haccepted.symm.trans hother) nofun
  unfold Event.accepted at haccepted
  split at haccepted
  · exact absurd (Option.ite_none_right_eq_some.mp haccepted).2 nofun
  · exact absurd (Option.ite_none_right_eq_some.mp haccepted).2 nofun
  · exact absurd (Option.ite_none_right_eq_some.mp haccepted).2 nofun
  · rename_i input _ hop _
    obtain ⟨⟨hid, haccount, hdesktop⟩, -⟩ := Option.ite_none_right_eq_some.mp haccepted
    obtain rfl : op = .deliverSealedAuthority input := hop
    exact hclean (opaque_of_delivered hperform) record (hid.symm ▸ hget)
      (decide_eq_true ⟨haccount.symm, hdesktop.symm⟩) hconfirmed
  · cases haccepted

theorem challengeId_eq {mailbox after : EndpointOwnedPairingMailbox} {reply : Reply}
    (h : Steps mailbox op reply after) {key : PendingPairingId}
    {record next : EndpointPairingMailboxPending} (hget : mailbox.pending.get? key = some record)
    (hnext : after.pending.get? key = some next) : next.challengeId = record.challengeId := by
  rcases h.advances key record hget with hgone | ⟨found, hfound, hadvances⟩
  · rw [hgone] at hnext
    cases hnext
  · rw [hfound] at hnext
    cases hnext
    exact congrArg Parties.challengeId hadvances.parties

theorem reply_of_opens {event : Event} {record : EndpointPairingMailboxPending}
    (h : Opens event record) : event.reply = .ok (.pending record.pendingPairingId) := by
  obtain ⟨-, input, challenge, -, hreply, -⟩ := h
  exact hreply

theorem apart_of_clean (hclean : history.Clean op) {reply : Except MailboxError Reply}
    {record found : EndpointPairingMailboxPending} {key : PendingPairingId}
    (hopens : Opens ⟨history.mailbox, op, reply⟩ record)
    (hfound : history.mailbox.pending.get? key = some found) :
    found.challengeId ≠ record.challengeId := by
  obtain ⟨hfresh, input, challenge, hop, -, hopaque, hcompletion, hchallenge, haccount, htime, hunused,
    hrecord⟩ := hopens
  obtain rfl : op = .submitMessage1 input := hop
  rw [hrecord] at hfresh ⊢
  exact hclean hopaque hcompletion challenge hchallenge haccount htime hunused hfresh key found hfound

theorem step_aligned (h : Aligned history.mailbox) : Aligned (history.step op).1.mailbox := by
  have hsteps := perform_steps h op
  unfold step
  rcases hperform : perform op history.mailbox with ⟨result, after⟩
  cases result with
  | error e =>
    obtain rfl : after = history.mailbox := hsteps.error hperform
    exact h
  | ok reply => exact (hsteps.ok hperform).aligned

theorem run_aligned (ops : List Op) : Aligned (transcript step empty ops).1.mailbox :=
  transcript_invariant (fun history : History => Aligned history.mailbox)
    (fun _ _ h => step_aligned h) ops empty_aligned

theorem step_sound (h : history.Sound) (hclean : history.Clean op) : (history.step op).1.Sound := by
  have hsteps := perform_steps h.aligned op
  unfold step
  rcases hperform : perform op history.mailbox with ⟨result, after⟩
  cases result with
  | error e =>
    obtain rfl : after = history.mailbox := hsteps.error hperform
    refine ⟨h.aligned, ?_, h.apart⟩
    intro key record hget
    obtain ⟨old, opening, since, first, htraced⟩ := h.carried key record hget
    have hid := h.aligned.pending _ _ hget
    have haccepted : Event.accepted ⟨history.mailbox, op, .error e⟩ record.parties = none := by
      unfold Event.accepted
      split <;> first | rfl | contradiction
    have hwipes : ¬ Event.Wipes ⟨history.mailbox, op, .error e⟩ record.pendingPairingId := by
      rintro ⟨now, replayRetentionMs, found, hop, -⟩
      obtain rfl : op = .evict now replayRetentionMs := hop
      exact absurd (congrArg Prod.fst hperform) nofun
    exact ⟨old, opening, since ++ [_], first, htraced.grow (.quiet haccepted hwipes)
      (hid.symm ▸ hget) fun bytes hbytes => absurd (haccepted.symm.trans hbytes) nofun⟩
  | ok reply =>
    have hdone := hsteps.ok hperform
    refine ⟨hdone.aligned, ?_, ?_⟩
    · intro key next hnext
      cases hget : history.mailbox.pending.get? key with
      | none =>
        have hopens := hdone.opens key next hget hnext
        obtain ⟨-, input, challenge, -, -, -, -, -, -, -, -, hrecord⟩ := hopens
        exact ⟨history.events, _, [], next, rfl, hdone.opens key next hget hnext, rfl,
          .opened hrecord (congrArg EndpointPairingMailboxPending.message1 hrecord)⟩
      | some record =>
        obtain ⟨old, opening, since, first, htraced⟩ := h.carried key record hget
        have hid := h.aligned.pending _ _ hget
        subst hid
        rcases hdone.advances _ record hget with hgone | ⟨found, hfound, hadvances⟩
        · rw [hgone] at hnext
          cases hnext
        · rw [hfound] at hnext
          cases hnext
          exact ⟨old, opening, since ++ [_], first, htraced.grow hadvances hget fun bytes hbytes =>
            live_of_clean hclean hperform hget hadvances hbytes⟩
    · intro key other record found hrecord hfound heq
      cases hkey : history.mailbox.pending.get? key with
      | none =>
        have hopens := hdone.opens key record hkey hrecord
        cases hother : history.mailbox.pending.get? other with
        | none =>
          have hsecond := hdone.opens other found hother hfound
          have hreply := Except.ok.inj ((reply_of_opens hopens).symm.trans (reply_of_opens hsecond))
          rw [← hdone.aligned.pending key record hrecord, ← hdone.aligned.pending other found hfound]
          exact Reply.pending.inj hreply
        | some earlier =>
          exact absurd (heq.trans (challengeId_eq hdone hother hfound)).symm
            (apart_of_clean hclean hopens hother)
      | some earlier =>
        have hsame := challengeId_eq hdone hkey hrecord
        cases hother : history.mailbox.pending.get? other with
        | none =>
          have hopens := hdone.opens other found hother hfound
          exact absurd (hsame.symm.trans heq) (apart_of_clean hclean hopens hkey)
        | some later =>
          have hlater := challengeId_eq hdone hother hfound
          exact h.apart key other earlier later hkey hother (hsame.symm.trans (heq.trans hlater))

theorem run_sound {ops : List Op} (h : Throughout step Clean empty ops) :
    (transcript step empty ops).1.Sound :=
  transcript_invariant_throughout Sound (fun _ _ hsound hclean => step_sound hsound hclean) h
    empty_sound

end History

def DesktopView.Shows (message1 : Bytes) (exchange : Exchange) : DesktopView → Prop
  | .message1 bytes _ => bytes = message1
  | .message3 first second third _ =>
    first = message1 ∧ exchange.message2 = some second ∧ exchange.message3 = some third
  | .confirmed _ => True

/-- The Mobile reads the bytes that were accepted first, and a confirmed pairing once its five
messages have been accepted in order. -/
def MobileView.Shows (exchange : Exchange) : MobileView → Prop
  | .message2 _ bytes _ => exchange.message2 = some bytes
  | .confirmed _ pairingId sealedRelayAuthority => ∃ message2 message3,
    exchange.firsts = [.message2 message2, .message3 message3, .confirmed pairingId,
      .authority sealedRelayAuthority]
  | _ => True

namespace Tracks

variable {since : List Event} {message1 : Bytes} {record : EndpointPairingMailboxPending}

theorem desktopView_shows (h : Tracks since message1 record)
    (hwiped : ¬ ∃ event ∈ since, event.Wipes record.pendingPairingId) :
    (desktopView record).Shows message1 (exchangeOf record.parties since) := by
  have hfirst := Option.some.inj (h.message1.eq hwiped)
  unfold desktopView
  split
  · trivial
  · split
    · rename_i third second hthird hsecond
      exact ⟨hfirst, (h.message2.eq hwiped).symm.trans hsecond,
        (h.message3.eq hwiped).symm.trans hthird⟩
    · exact hfirst

theorem mobileView_rejected (hrejected : record.rejected = true) :
    mobileView record = .rejected record.pendingPairingId := by
  unfold mobileView
  rw [if_pos hrejected]

theorem mobileView_shows (h : Tracks since message1 record) :
    (mobileView record).Shows (exchangeOf record.parties since) := by
  cases hrejected : record.rejected with
  | true =>
    rw [mobileView_rejected hrejected]
    trivial
  | false =>
    have hwiped : ¬ ∃ event ∈ since, event.Wipes record.pendingPairingId := by
      intro hwiped
      rw [h.wiped hwiped] at hrejected
      cases hrejected
    have hauthority := h.authority
    rw [hrejected, if_neg Bool.false_ne_true] at hauthority
    unfold mobileView
    rw [hrejected, if_neg Bool.false_ne_true]
    split
    · rename_i bytes pairingId hsealed hpairing
      have hfourth := hauthority.symm.trans hsealed
      have hthird := h.pairingId.symm.trans hpairing
      obtain ⟨second, hsecond⟩ := Option.isSome_iff_exists.mp
        (h.inOrder.finished (by rw [hthird]; rfl))
      obtain ⟨first, hfirst⟩ := Option.isSome_iff_exists.mp
        (h.inOrder.answered (by rw [hsecond]; rfl))
      refine ⟨first, second, ?_⟩
      unfold Exchange.firsts
      rw [hfirst, hsecond, hthird, hfourth]
      rfl
    · split
      · trivial
      · split
        · rename_i bytes hsecond
          exact (h.message2.eq hwiped).symm.trans hsecond
        · trivial

end Tracks

theorem Traced.overwritten {history : History} {record first : EndpointPairingMailboxPending}
    {old since : List Event} {opening : Event}
    (h : Traced history record old opening since first)
    (hwiped : ∃ event ∈ since, event.Wipes record.pendingPairingId) :
    history.Overwritten record.pendingPairingId := by
  obtain ⟨event, hmem, hwipes⟩ := hwiped
  obtain ⟨before, after, rfl⟩ := List.append_of_mem hmem
  refine ⟨old ++ opening :: before, event, after, ?_, hwipes, ?_⟩
  · rw [h.events, List.append_assoc, List.cons_append]
  · intro later hlater
    exact h.tracks.retained later (List.mem_append_right _ (List.mem_cons_of_mem _ hlater))

theorem readDesktop_reads {mailbox after : EndpointOwnedPairingMailbox}
    {pendingPairingId : PendingPairingId} {accountId : PlatformAccountId}
    {desktopInstallationId : InstallationId} {reply : Reply}
    (h : perform (.readDesktop pendingPairingId accountId desktopInstallationId) mailbox =
      (.ok reply, after)) :
    ∃ record, mailbox.pending.get? pendingPairingId = some record ∧
      record.isOwnedBy accountId desktopInstallationId = true ∧
        reply = .desktop (desktopView record) := by
  have hsettles : Settles (perform (.readDesktop pendingPairingId accountId desktopInstallationId))
      (fun reply _ => ∃ record, mailbox.pending.get? pendingPairingId = some record ∧
        record.isOwnedBy accountId desktopInstallationId = true ∧
          reply = .desktop (desktopView record)) mailbox := by
    apply ends_map.mpr
    apply ends_bind.mpr
    apply settles_found
    intro record hget
    apply ends_bind.mpr
    apply settles_desktop
    intro haccount hdesktop
    exact ⟨record, hget, decide_eq_true ⟨haccount.symm, hdesktop.symm⟩, rfl⟩
  exact hsettles.ok h

theorem readMobile_reads {mailbox after : EndpointOwnedPairingMailbox}
    (haligned : Aligned mailbox) {completionId : PairingCompletionId}
    {accountId : PlatformAccountId} {mobileInstallationId : InstallationId} {reply : Reply}
    (h : perform (.readMobile completionId accountId mobileInstallationId) mailbox =
      (.ok reply, after)) :
    ∃ record, mailbox.pending.get? record.pendingPairingId = some record ∧
      record.completionId = completionId ∧ record.accountId = accountId ∧
        record.mobileInstallationId = mobileInstallationId ∧
          reply = .mobile (mobileView record) := by
  have hsettles : Settles (perform (.readMobile completionId accountId mobileInstallationId))
      (fun reply _ => ∃ record, mailbox.pending.get? record.pendingPairingId = some record ∧
        record.completionId = completionId ∧ record.accountId = accountId ∧
          record.mobileInstallationId = mobileInstallationId ∧
            reply = .mobile (mobileView record)) mailbox := by
    apply ends_map.mpr
    apply ends_bind.mpr
    apply settles_found
    intro record hfound
    obtain ⟨hget, hcompletion⟩ := haligned.completion?_eq.mp hfound
    apply ends_bind.mpr
    apply settles_mobile
    intro haccount hmobile
    exact ⟨record, hget, hcompletion, haccount.symm, hmobile.symm, rfl⟩
  exact hsettles.ok h

/-- In a clean run every record follows the exchange of its two sides, reads show what was accepted
first, a call that throws changes nothing, and an exported mailbox is rebuilt. -/
theorem pairing_mailbox_protocol (ops : List Op) :
    let history := (transcript History.step History.empty ops).1
    let mailbox := history.mailbox
    (∀ op e after, perform op mailbox = (.error e, after) → after = mailbox) ∧
    construct mailbox.exportState = .ok mailbox ∧
    (Throughout History.step History.Clean History.empty ops →
      (∀ key other record found, mailbox.pending.get? key = some record →
        mailbox.pending.get? other = some found →
          record.challengeId = found.challengeId ∨ record.completionId = found.completionId →
            key = other) ∧
      (∀ key record, mailbox.pending.get? key = some record → ∃ old opening since first,
        Traced history record old opening since first ∧
          (∀ accountId desktopInstallationId reply after,
            history.Clean (.readDesktop key accountId desktopInstallationId) →
            perform (.readDesktop key accountId desktopInstallationId) mailbox = (.ok reply, after) →
              record.isOwnedBy accountId desktopInstallationId = true ∧
                ∃ view, reply = .desktop view ∧
                  view.Shows first.message1 (exchangeOf record.parties since)) ∧
          (∀ accountId mobileInstallationId reply after,
            perform (.readMobile record.completionId accountId mobileInstallationId) mailbox =
              (.ok reply, after) →
              record.accountId = accountId ∧ record.mobileInstallationId = mobileInstallationId ∧
                ∃ view, reply = .mobile view ∧ view.Shows (exchangeOf record.parties since) ∧
                  (record.rejected = true → view = .rejected key)) ∧
          (record.rejected = true → record.sealedRelayAuthority = none)) ∧
      (∀ completionId accountId mobileInstallationId reply after,
        perform (.readMobile completionId accountId mobileInstallationId) mailbox =
          (.ok reply, after) →
          ∃ record, mailbox.pending.get? record.pendingPairingId = some record ∧
            record.completionId = completionId)) := by
  intro history mailbox
  have haligned : Aligned mailbox := History.run_aligned ops
  refine ⟨fun op e after hperform => (perform_steps haligned op).error hperform,
    construct_exportState haligned, ?_⟩
  intro h
  have hsound : history.Sound := History.run_sound h
  refine ⟨?_, ?_, ?_⟩
  · intro key other record found hrecord hfound hsame
    rcases hsame with hchallenge | hcompletion
    · exact hsound.apart key other record found hrecord hfound hchallenge
    · exact haligned.completion_unique hrecord hfound hcompletion
  · intro key record hget
    obtain ⟨old, opening, since, first, htraced⟩ := hsound.carried key record hget
    have hkey := haligned.pending key record hget
    refine ⟨old, opening, since, first, htraced, ?_, ?_, ?_⟩
    · intro accountId desktopInstallationId reply after hclean hread
      obtain ⟨found, hfound, howned, hreply⟩ := readDesktop_reads hread
      rw [hget] at hfound
      cases hfound
      refine ⟨howned, _, hreply, htraced.tracks.desktopView_shows fun hwiped => ?_⟩
      exact hclean record hget howned (hkey ▸ htraced.overwritten hwiped)
    · intro accountId mobileInstallationId reply after hread
      obtain ⟨found, hfound, hcompletion, haccount, hmobile, hreply⟩ :=
        readMobile_reads haligned hread
      have hsame := haligned.completion_unique hfound hget hcompletion
      rw [hsame, hget] at hfound
      cases hfound
      refine ⟨haccount, hmobile, _, hreply, htraced.tracks.mobileView_shows, fun hrejected => ?_⟩
      rw [Tracks.mobileView_rejected hrejected, hkey]
    · intro hrejected
      rw [htraced.tracks.authority, if_pos hrejected]
  · intro completionId accountId mobileInstallationId reply after hread
    obtain ⟨record, hget, hcompletion, -⟩ := readMobile_reads haligned hread
    exact ⟨record, hget, hcompletion⟩

section Runs

def invitation (challengeId : PairingChallengeId) (expiresAt : Int) : Op :=
  .createChallenge ⟨challengeId, "account", "desktop", expiresAt, none, none⟩

def firstMessage (completionId : PairingCompletionId) (allocated : PendingPairingId) (now : Int) : Op :=
  .submitMessage1 ⟨"challenge", completionId, "account", "mobile", ⟨"phone", "ios"⟩, [1], now,
    allocated⟩

def authorityOf (bytes : Bytes) : Op :=
  .deliverSealedAuthority ⟨"pending", "account", "desktop", bytes⟩

def pairedOps : List Op :=
  [invitation "challenge" 100, firstMessage "completion" "pending" 1,
    .submitMessage2 ⟨"pending", "account", "desktop", [2]⟩,
    .submitMessage3 ⟨"completion", "account", "mobile", [3]⟩,
    .confirm ⟨"pending", "account", "desktop", "pairing", 5⟩, authorityOf [9]]

theorem pairing_mailbox_protocol_paired :
    ∃ record old opening since first,
      Traced (transcript History.step History.empty pairedOps).1 record old opening since first ∧
        (exchangeOf record.parties since).authority = some [9] := by
  have hclean : Throughout History.step History.Clean History.empty pairedOps := by
    refine ⟨trivial, ?_, trivial, trivial, trivial, ?_, trivial⟩
    · intro _ _ challenge _ _ _ _ _ key record hget
      cases hget
    · intro _ record hget _ _
      have hlive : ((transcript History.step History.empty (pairedOps.take 5)).1.mailbox.pending.get?
          "pending").map (·.rejected) = some false := by decide +kernel
      obtain ⟨found, hfound, hrejected⟩ := Option.map_eq_some_iff.mp hlive
      have hsame := hfound.symm.trans hget
      cases hsame
      exact hrejected
  obtain ⟨-, hrecords, -⟩ := (pairing_mailbox_protocol pairedOps).2.2 hclean
  have hsealed : ((transcript History.step History.empty pairedOps).1.mailbox.pending.get?
      "pending").map (fun record => (record.rejected, record.sealedRelayAuthority)) =
        some (false, some [9]) := by decide +kernel
  obtain ⟨record, hget, hvalue⟩ := Option.map_eq_some_iff.mp hsealed
  obtain ⟨old, opening, since, first, htraced, -⟩ := hrecords "pending" record hget
  refine ⟨record, old, opening, since, first, htraced, ?_⟩
  have hauthority := htraced.tracks.authority
  rw [(Prod.mk.inj hvalue).1, (Prod.mk.inj hvalue).2, if_neg Bool.false_ne_true] at hauthority
  exact hauthority.symm

/-- The Desktop is disabled and delivers other authority to the pairing that it confirmed. -/
def disabledOps : List Op := pairedOps ++ [.disable "account" "desktop" 6, authorityOf [8]]

def expiredOps : List Op :=
  [invitation "challenge" 100, firstMessage "completion" "pending" 1, .evict 100 50,
    .readDesktop "pending" "account" "desktop"]

def reusedOps : List Op :=
  [invitation "challenge" 100, firstMessage "completion" "pending" 1, .evict 100 50,
    invitation "challenge" 200, firstMessage "again" "second" 101]

theorem pairing_mailbox_departs :
    ((transcript History.step History.empty disabledOps).1.mailbox.pending.get? "pending").map
        (fun record => (record.rejected, record.sealedRelayAuthority)) = some (true, some [8]) ∧
      (transcript History.step History.empty expiredOps).2.getLast? =
        some (.ok (.desktop (.message1 [0] ⟨"phone", "ios"⟩))) ∧
      (transcript History.step History.empty reusedOps).1.mailbox.pending.values.map
        (fun record => (record.pendingPairingId, record.challengeId)) =
          [("pending", "challenge"), ("second", "challenge")] := by
  decide +kernel

end Runs

end Harness.RemoteAccess
