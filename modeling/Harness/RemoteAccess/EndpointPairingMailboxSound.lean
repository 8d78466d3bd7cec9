import Harness.RemoteAccess.EndpointPairingMailbox

namespace Harness.RemoteAccess

open Harness.Foundation
open Attempt

inductive Accepted
  | message2 (bytes : Bytes)
  | message3 (bytes : Bytes)
  | confirmed (pairingId : PersonalPairingId)
  | authority (bytes : Bytes)
  deriving DecidableEq

namespace Accepted

def message2? : Accepted → Option Bytes
  | .message2 bytes => some bytes
  | _ => none

def message3? : Accepted → Option Bytes
  | .message3 bytes => some bytes
  | _ => none

def pairingId? : Accepted → Option PersonalPairingId
  | .confirmed pairingId => some pairingId
  | _ => none

def authority? : Accepted → Option Bytes
  | .authority bytes => some bytes
  | _ => none

end Accepted

structure Exchange where
  accepted : List Accepted

namespace Exchange

def message2 (exchange : Exchange) : Option Bytes := exchange.accepted.findSome? Accepted.message2?

def message3 (exchange : Exchange) : Option Bytes := exchange.accepted.findSome? Accepted.message3?

def pairingId (exchange : Exchange) : Option PersonalPairingId :=
  exchange.accepted.findSome? Accepted.pairingId?

def authority (exchange : Exchange) : Option Bytes :=
  exchange.accepted.findSome? Accepted.authority?

def firsts (exchange : Exchange) : List Accepted :=
  exchange.message2.toList.map .message2 ++ exchange.message3.toList.map .message3 ++
    exchange.pairingId.toList.map .confirmed ++ exchange.authority.toList.map .authority

def snoc (exchange : Exchange) (accepted : Accepted) : Exchange := ⟨exchange.accepted ++ [accepted]⟩

def Allows (exchange : Exchange) : Accepted → Prop
  | .message2 _ => True
  | .message3 _ => exchange.message2.isSome
  | .confirmed _ => exchange.message3.isSome
  | .authority _ => exchange.pairingId.isSome

structure InOrder (exchange : Exchange) : Prop where
  ordered : exchange.firsts.Sublist exchange.accepted
  answered : exchange.message3.isSome → exchange.message2.isSome
  finished : exchange.pairingId.isSome → exchange.message3.isSome
  confirmed : exchange.authority.isSome → exchange.pairingId.isSome

variable {exchange : Exchange}

theorem findSome?_snoc {α β : Type} (f : α → Option β) (items : List α) (item : α) :
    (items ++ [item]).findSome? f = (items.findSome? f).or (f item) := by
  rw [List.findSome?_append, List.findSome?_singleton]

@[simp] theorem message2_snoc (accepted : Accepted) :
    (exchange.snoc accepted).message2 = exchange.message2.or accepted.message2? :=
  findSome?_snoc _ _ _

@[simp] theorem message3_snoc (accepted : Accepted) :
    (exchange.snoc accepted).message3 = exchange.message3.or accepted.message3? :=
  findSome?_snoc _ _ _

@[simp] theorem pairingId_snoc (accepted : Accepted) :
    (exchange.snoc accepted).pairingId = exchange.pairingId.or accepted.pairingId? :=
  findSome?_snoc _ _ _

@[simp] theorem authority_snoc (accepted : Accepted) :
    (exchange.snoc accepted).authority = exchange.authority.or accepted.authority? :=
  findSome?_snoc _ _ _

theorem inOrder_nil : InOrder ⟨[]⟩ where
  ordered := List.Sublist.refl _
  answered := nofun
  finished := nofun
  confirmed := nofun

theorem isSome_none_of {α β : Type} {first : Option α} {second : Option β}
    (h : second.isSome → first.isSome) (hfirst : first = none) : second = none := by
  cases second with
  | none => rfl
  | some value =>
    rw [hfirst] at h
    exact absurd (h rfl) Bool.false_ne_true

theorem firsts_snoc (h : exchange.InOrder) {accepted : Accepted} (hallowed : exchange.Allows accepted) :
    (exchange.snoc accepted).firsts = exchange.firsts ∨
      (exchange.snoc accepted).firsts = exchange.firsts ++ [accepted] := by
  cases accepted with
  | message2 bytes =>
    cases hsecond : exchange.message2 with
    | none =>
      right
      have hthird := isSome_none_of h.answered hsecond
      have hpairing := isSome_none_of h.finished hthird
      have hauthority := isSome_none_of h.confirmed hpairing
      unfold firsts
      simp [Accepted.message2?, Accepted.message3?, Accepted.pairingId?, Accepted.authority?,
        hsecond, hthird, hpairing, hauthority]
    | some held =>
      left
      unfold firsts
      simp [Accepted.message2?, Accepted.message3?, Accepted.pairingId?, Accepted.authority?, hsecond]
  | message3 bytes =>
    cases hthird : exchange.message3 with
    | none =>
      right
      have hpairing := isSome_none_of h.finished hthird
      have hauthority := isSome_none_of h.confirmed hpairing
      unfold firsts
      simp [Accepted.message2?, Accepted.message3?, Accepted.pairingId?, Accepted.authority?, hthird,
        hpairing, hauthority]
    | some held =>
      left
      unfold firsts
      simp [Accepted.message2?, Accepted.message3?, Accepted.pairingId?, Accepted.authority?, hthird]
  | confirmed pairingId =>
    cases hpairing : exchange.pairingId with
    | none =>
      right
      have hauthority := isSome_none_of h.confirmed hpairing
      unfold firsts
      simp [Accepted.message2?, Accepted.message3?, Accepted.pairingId?, Accepted.authority?,
        hpairing, hauthority]
    | some held =>
      left
      unfold firsts
      simp [Accepted.message2?, Accepted.message3?, Accepted.pairingId?, Accepted.authority?, hpairing]
  | authority bytes =>
    cases hauthority : exchange.authority with
    | none =>
      right
      unfold firsts
      simp [Accepted.message2?, Accepted.message3?, Accepted.pairingId?, Accepted.authority?,
        hauthority]
    | some held =>
      left
      unfold firsts
      simp [Accepted.message2?, Accepted.message3?, Accepted.pairingId?, Accepted.authority?,
        hauthority]

theorem InOrder.snoc (h : exchange.InOrder) {accepted : Accepted}
    (hallowed : exchange.Allows accepted) : (exchange.snoc accepted).InOrder where
  ordered := by
    rcases firsts_snoc h hallowed with hold | hnew
    · rw [hold]
      exact h.ordered.trans (List.sublist_append_left _ _)
    · rw [hnew]
      exact h.ordered.append (List.Sublist.refl _)
  answered := by
    have hanswered := h.answered
    cases accepted <;>
      simp_all [Allows, Accepted.message2?, Accepted.message3?]
  finished := by
    have hfinished := h.finished
    cases accepted <;>
      simp_all [Allows, Accepted.message3?, Accepted.pairingId?]
  confirmed := by
    have hconfirmed := h.confirmed
    cases accepted <;>
      simp_all [Allows, Accepted.pairingId?, Accepted.authority?]

end Exchange

structure Parties where
  pendingPairingId : PendingPairingId
  completionId : PairingCompletionId
  challengeId : PairingChallengeId
  accountId : PlatformAccountId
  desktopInstallationId : InstallationId
  mobileInstallationId : InstallationId
  device : PairingDeviceDescription

namespace EndpointPairingMailboxPending

def parties (record : EndpointPairingMailboxPending) : Parties where
  pendingPairingId := record.pendingPairingId
  completionId := record.completionId
  challengeId := record.challengeId
  accountId := record.accountId
  desktopInstallationId := record.desktopInstallationId
  mobileInstallationId := record.mobileInstallationId
  device := record.device

def isExpired (now : Int) (record : EndpointPairingMailboxPending) : Bool :=
  !record.confirmed && !record.rejected && decide (record.expiresAt ≤ now)

@[simp] theorem parties_expire (now : Int) (record : EndpointPairingMailboxPending) :
    (record.expire now).parties = record.parties := by
  unfold expire
  split <;> rfl

theorem expire_of_not (now : Int) {record : EndpointPairingMailboxPending}
    (h : record.isExpired now = false) : record.expire now = record := by
  unfold expire
  unfold isExpired at h
  rw [h]
  rfl

end EndpointPairingMailboxPending

open EndpointOwnedPairingMailbox

structure Event where
  before : EndpointOwnedPairingMailbox
  op : Op
  reply : Except MailboxError Reply

namespace Event

/-- What the call got accepted for a pairing, if it is one of the pairing's own side. -/
def accepted (event : Event) (parties : Parties) : Option Accepted :=
  match event.op, event.reply with
  | .submitMessage2 input, .ok _ =>
    if input.pendingPairingId = parties.pendingPairingId ∧ input.accountId = parties.accountId
        ∧ input.desktopInstallationId = parties.desktopInstallationId then
      some (.message2 input.message2)
    else none
  | .submitMessage3 input, .ok _ =>
    if input.completionId = parties.completionId ∧ input.accountId = parties.accountId
        ∧ input.mobileInstallationId = parties.mobileInstallationId then
      some (.message3 input.message3)
    else none
  | .confirm input, .ok _ =>
    if input.pendingPairingId = parties.pendingPairingId ∧ input.accountId = parties.accountId
        ∧ input.desktopInstallationId = parties.desktopInstallationId then
      some (.confirmed input.pairingId)
    else none
  | .deliverSealedAuthority input, .ok _ =>
    if input.pendingPairingId = parties.pendingPairingId ∧ input.accountId = parties.accountId
        ∧ input.desktopInstallationId = parties.desktopInstallationId then
      some (.authority input.sealedRelayAuthority)
    else none
  | _, _ => none

def Wipes (event : Event) (pendingPairingId : PendingPairingId) : Prop :=
  ∃ now replayRetentionMs record, event.op = .evict now replayRetentionMs ∧
    event.before.pending.get? pendingPairingId = some record ∧ record.isExpired now = true

end Event

theorem not_wipes {mailbox : EndpointOwnedPairingMailbox} {op : Op}
    {reply : Except MailboxError Reply} {pendingPairingId : PendingPairingId}
    (hop : ∀ now replayRetentionMs, op ≠ .evict now replayRetentionMs) :
    ¬ Event.Wipes ⟨mailbox, op, reply⟩ pendingPairingId :=
  fun ⟨now, replayRetentionMs, _, h, _⟩ => hop now replayRetentionMs h

inductive Advances (event : Event) (record : EndpointPairingMailboxPending) :
    EndpointPairingMailboxPending → Prop
  | quiet : event.accepted record.parties = none → ¬ event.Wipes record.pendingPairingId →
      Advances event record record
  | message2 (bytes : Bytes) : event.accepted record.parties = some (.message2 bytes) →
      Advances event record { record with message2 := record.message2.or (some bytes) }
  | message3 (bytes : Bytes) : event.accepted record.parties = some (.message3 bytes) →
      record.message2.isSome = true →
      Advances event record { record with message3 := record.message3.or (some bytes) }
  | confirmed (pairingId : PersonalPairingId) (settledAt : Option Int) :
      event.accepted record.parties = some (.confirmed pairingId) → record.message3.isSome = true →
      record.rejected = false → (record.confirmed = true → record.pairingId = some pairingId) →
      Advances event record
        { record with confirmed := true, pairingId := some pairingId, settledAt }
  | authority (bytes : Bytes) : event.accepted record.parties = some (.authority bytes) →
      record.confirmed = true →
      Advances event record
        { record with sealedRelayAuthority := record.sealedRelayAuthority.or (some bytes) }
  | rejected (settledAt : Option Int) : event.accepted record.parties = none →
      record.confirmed = false → Advances event record { record with rejected := true, settledAt }
  | expired (now : Int) : event.accepted record.parties = none →
      event.Wipes record.pendingPairingId → record.isExpired now = true →
      Advances event record (record.expire now)
  | disabled (now : Int) : event.accepted record.parties = none →
      Advances event record (record.disable now)

theorem Advances.parties {event : Event} {record next : EndpointPairingMailboxPending}
    (h : Advances event record next) : next.parties = record.parties := by
  cases h with
  | expired now => exact EndpointPairingMailboxPending.parties_expire now record
  | _ => rfl

structure Opens (event : Event) (record : EndpointPairingMailboxPending) : Prop where
  fresh : event.before.pending.get? record.pendingPairingId = none
  submitted : ∃ input challenge, event.op = .submitMessage1 input ∧
    event.reply = .ok (.pending record.pendingPairingId) ∧
    isOpaque input.message1 = true ∧ event.before.completion? input.completionId = none ∧
    event.before.challenges.get? input.challengeId = some challenge ∧
    challenge.accountId = input.accountId ∧ input.now ≤ challenge.expiresAt ∧
    challenge.completionId = none ∧ record = openRecord input challenge

/-- Keys are the ids of the records, and the completions are those of the pending records. -/
structure Aligned (mailbox : EndpointOwnedPairingMailbox) : Prop where
  challenges : ∀ key challenge, mailbox.challenges.get? key = some challenge →
    challenge.challengeId = key
  pending : ∀ key record, mailbox.pending.get? key = some record → record.pendingPairingId = key
  completions : mailbox.completions.entries =
    mailbox.pending.entries.map fun entry => (entry.2.completionId, entry.1)

theorem empty_aligned : Aligned .empty where
  challenges := fun _ _ h => by cases h
  pending := fun _ _ h => by cases h
  completions := rfl

namespace Aligned

variable {mailbox : EndpointOwnedPairingMailbox}

theorem completions_get? (h : Aligned mailbox) {completionId : PairingCompletionId}
    {pendingPairingId : PendingPairingId} :
    mailbox.completions.get? completionId = some pendingPairingId ↔
      ∃ record, mailbox.pending.get? pendingPairingId = some record ∧
        record.completionId = completionId := by
  rw [← OrderedMap.mem_entries_iff, h.completions, List.mem_map]
  constructor
  · rintro ⟨⟨key, record⟩, hmem, heq⟩
    cases heq
    exact ⟨record, OrderedMap.mem_entries_iff.mp hmem, rfl⟩
  · rintro ⟨record, hget, rfl⟩
    exact ⟨(pendingPairingId, record), OrderedMap.mem_entries_iff.mpr hget, rfl⟩

theorem completion?_eq (h : Aligned mailbox) {completionId : PairingCompletionId}
    {record : EndpointPairingMailboxPending} :
    mailbox.completion? completionId = some record ↔
      mailbox.pending.get? record.pendingPairingId = some record ∧
        record.completionId = completionId := by
  unfold completion?
  rw [Option.bind_eq_some_iff]
  constructor
  · rintro ⟨key, hkey, hget⟩
    obtain ⟨other, hother, hcompletion⟩ := h.completions_get?.mp hkey
    rw [hget] at hother
    cases hother
    rw [h.pending key record hget]
    exact ⟨hget, hcompletion⟩
  · rintro ⟨hget, hcompletion⟩
    exact ⟨_, h.completions_get?.mpr ⟨record, hget, hcompletion⟩, hget⟩

theorem completion_unique (h : Aligned mailbox) {key other : PendingPairingId}
    {record found : EndpointPairingMailboxPending} (hrecord : mailbox.pending.get? key = some record)
    (hfound : mailbox.pending.get? other = some found)
    (heq : record.completionId = found.completionId) : key = other := by
  have hleft := h.completions_get?.mpr ⟨record, hrecord, rfl⟩
  have hright := h.completions_get?.mpr ⟨found, hfound, heq.symm⟩
  rw [hleft] at hright
  exact Option.some.inj hright

theorem written (h : Aligned mailbox) {record next : EndpointPairingMailboxPending}
    (hget : mailbox.pending.get? next.pendingPairingId = some record)
    (hcompletion : next.completionId = record.completionId) : Aligned (written next mailbox) where
  challenges := h.challenges
  pending := by
    intro key found hfound
    unfold EndpointOwnedPairingMailbox.written at hfound
    rw [OrderedMap.get?_set] at hfound
    split at hfound
    · rename_i heq
      cases hfound
      exact heq.symm
    · exact h.pending key found hfound
  completions := by
    unfold EndpointOwnedPairingMailbox.written
    rw [OrderedMap.set, dif_pos (OrderedMap.mem_keys_of_get? hget), OrderedMap.entries_modify,
      List.map_map]
    refine h.completions.trans (List.map_congr_left ?_)
    rintro ⟨key, found⟩ hmem
    rw [OrderedMap.mem_entries_iff] at hmem
    by_cases hkey : key = next.pendingPairingId
    · subst hkey
      rw [hget] at hmem
      cases hmem
      rw [Function.comp_apply, if_pos rfl, hcompletion]
    · rw [Function.comp_apply, if_neg hkey]

theorem deleteCompletions_entries (completions : OrderedMap PairingCompletionId PendingPairingId)
    (records : List EndpointPairingMailboxPending) :
    (deleteCompletions completions records).entries =
      completions.entries.filter fun entry =>
        decide (entry.1 ∉ records.map EndpointPairingMailboxPending.completionId) := by
  induction records generalizing completions with
  | nil => exact (List.filter_eq_self.mpr fun _ _ => by simp).symm
  | cons record records ih =>
    change (deleteCompletions (completions.delete record.completionId) records).entries = _
    rw [ih, OrderedMap.entries_delete, List.filter_filter]
    apply List.filter_congr
    intro entry _
    rw [← Bool.decide_and, decide_eq_decide, List.map_cons, List.mem_cons, not_or]
    exact and_comm

theorem filterChallenges (h : Aligned mailbox)
    (keep : PairingChallengeId → EndpointPairingMailboxChallenge → Bool) :
    Aligned { mailbox with challenges := mailbox.challenges.filter keep } where
  challenges := by
    intro key challenge hget
    rw [OrderedMap.get?_filter] at hget
    exact h.challenges key challenge (Option.filter_eq_some_iff.mp hget).1
  pending := h.pending
  completions := h.completions

theorem mapValues (h : Aligned mailbox)
    {f : EndpointPairingMailboxPending → EndpointPairingMailboxPending}
    (hf : ∀ record, (f record).parties = record.parties) :
    Aligned { mailbox with pending := mailbox.pending.mapValues f } where
  challenges := h.challenges
  pending := by
    intro key record hget
    rw [OrderedMap.get?_mapValues] at hget
    obtain ⟨found, hfound, rfl⟩ := Option.map_eq_some_iff.mp hget
    exact (congrArg Parties.pendingPairingId (hf found)).trans (h.pending key found hfound)
  completions := by
    unfold OrderedMap.mapValues
    rw [List.map_map]
    refine h.completions.trans (List.map_congr_left ?_)
    rintro ⟨key, record⟩ _
    exact congrArg (·, key) (congrArg Parties.completionId (hf record)).symm

theorem shed (h : Aligned mailbox) (p : EndpointPairingMailboxPending → Bool) : Aligned
    { mailbox with
      pending := mailbox.pending.filter fun _ record => !p record
      completions := deleteCompletions mailbox.completions (mailbox.pending.values.filter p) } where
  challenges := h.challenges
  pending := by
    intro key record hget
    rw [OrderedMap.get?_filter] at hget
    exact h.pending key record (Option.filter_eq_some_iff.mp hget).1
  completions := by
    rw [deleteCompletions_entries, h.completions, List.filter_map]
    congr 1
    apply List.filter_congr
    rintro ⟨key, record⟩ hmem
    have hget := OrderedMap.mem_entries_iff.mp hmem
    change decide (record.completionId ∉ _) = !p record
    cases hp : p record with
    | true =>
      apply decide_eq_false
      rw [not_not]
      exact List.mem_map.mpr
        ⟨record, List.mem_filter.mpr ⟨OrderedMap.mem_values_iff.mpr ⟨key, hget⟩, hp⟩, rfl⟩
    | false =>
      apply decide_eq_true
      intro hshed
      obtain ⟨found, hfound, hcompletion⟩ := List.mem_map.mp hshed
      obtain ⟨hvalue, hfilter⟩ := List.mem_filter.mp hfound
      obtain ⟨other, hother⟩ := OrderedMap.mem_values_iff.mp hvalue
      have hkey := h.completion_unique hget hother hcompletion.symm
      subst hkey
      rw [hget] at hother
      cases hother
      rw [hp] at hfilter
      cases hfilter

theorem opened (h : Aligned mailbox) {input : Message1Input}
    {challenge : EndpointPairingMailboxChallenge}
    (hchallenge : mailbox.challenges.get? input.challengeId = some challenge)
    (hpending : mailbox.pending.get? input.allocated = none)
    (hcompletion : mailbox.completion? input.completionId = none) :
    Aligned (opened input challenge mailbox) where
  challenges := by
    intro key found hfound
    unfold EndpointOwnedPairingMailbox.opened at hfound
    rw [OrderedMap.get?_set] at hfound
    split at hfound
    · rename_i heq
      cases hfound
      exact (h.challenges _ _ hchallenge).trans heq.symm
    · exact h.challenges key found hfound
  pending := by
    intro key found hfound
    unfold EndpointOwnedPairingMailbox.opened at hfound
    rw [OrderedMap.get?_set] at hfound
    split at hfound
    · rename_i heq
      cases hfound
      exact heq.symm
    · exact h.pending key found hfound
  completions := by
    have hnew : mailbox.completions.get? input.completionId = none := by
      cases hget : mailbox.completions.get? input.completionId with
      | none => rfl
      | some key =>
        obtain ⟨record, hrecord, -⟩ := h.completions_get?.mp hget
        unfold completion? at hcompletion
        rw [hget, Option.bind_some, hrecord] at hcompletion
        cases hcompletion
    unfold EndpointOwnedPairingMailbox.opened
    rw [OrderedMap.entries_set_new (OrderedMap.notMem_keys_of_get? hnew),
      OrderedMap.entries_set_new (OrderedMap.notMem_keys_of_get? hpending), h.completions,
      List.map_append]
    rfl

end Aligned

structure Steps (mailbox : EndpointOwnedPairingMailbox) (op : Op) (reply : Reply)
    (after : EndpointOwnedPairingMailbox) : Prop where
  aligned : Aligned after
  advances : ∀ key record, mailbox.pending.get? key = some record →
    after.pending.get? key = none ∨ ∃ next, after.pending.get? key = some next ∧
      Advances ⟨mailbox, op, .ok reply⟩ record next
  opens : ∀ key next, mailbox.pending.get? key = none → after.pending.get? key = some next →
    Opens ⟨mailbox, op, .ok reply⟩ next

namespace Steps

variable {mailbox after : EndpointOwnedPairingMailbox} {op : Op} {reply : Reply}

theorem quiet (haligned : Aligned after) (hpending : after.pending = mailbox.pending)
    (hop : ∀ now replayRetentionMs, op ≠ .evict now replayRetentionMs)
    (haccepted : ∀ parties, Event.accepted ⟨mailbox, op, .ok reply⟩ parties = none) :
    Steps mailbox op reply after where
  aligned := haligned
  advances := by
    intro key record hget
    rw [hpending]
    exact .inr ⟨record, hget, .quiet (haccepted _) (not_wipes hop)⟩
  opens := by
    intro key next hnone hsome
    rw [hpending, hnone] at hsome
    cases hsome

theorem written (haligned : Aligned mailbox) {record next : EndpointPairingMailboxPending}
    (hget : mailbox.pending.get? record.pendingPairingId = some record)
    (hadvances : Advances ⟨mailbox, op, .ok reply⟩ record next)
    (hop : ∀ now replayRetentionMs, op ≠ .evict now replayRetentionMs)
    (hothers : ∀ key found, mailbox.pending.get? key = some found →
      key ≠ record.pendingPairingId →
        Event.accepted ⟨mailbox, op, .ok reply⟩ found.parties = none) :
    Steps mailbox op reply (written next mailbox) := by
  have hkey : next.pendingPairingId = record.pendingPairingId :=
    congrArg Parties.pendingPairingId hadvances.parties
  refine ⟨haligned.written (hkey ▸ hget) (congrArg Parties.completionId hadvances.parties), ?_, ?_⟩
  · intro key found hfound
    unfold EndpointOwnedPairingMailbox.written
    rw [OrderedMap.get?_set, hkey]
    by_cases heq : key = record.pendingPairingId
    · subst heq
      rw [hget] at hfound
      cases hfound
      rw [if_pos rfl]
      exact .inr ⟨next, rfl, hadvances⟩
    · rw [if_neg heq]
      exact .inr ⟨found, hfound, .quiet (hothers key found hfound heq) (not_wipes hop)⟩
  · intro key found hnone hfound
    unfold EndpointOwnedPairingMailbox.written at hfound
    rw [OrderedMap.get?_set, hkey] at hfound
    split at hfound
    · rename_i heq
      rw [heq, hget] at hnone
      cases hnone
    · rw [hnone] at hfound
      cases hfound

theorem unwritten (haligned : Aligned mailbox) {record next : EndpointPairingMailboxPending}
    (hget : mailbox.pending.get? record.pendingPairingId = some record)
    (hadvances : Advances ⟨mailbox, op, .ok reply⟩ record next) (hsame : next = record)
    (hop : ∀ now replayRetentionMs, op ≠ .evict now replayRetentionMs)
    (hothers : ∀ key found, mailbox.pending.get? key = some found →
      key ≠ record.pendingPairingId →
        Event.accepted ⟨mailbox, op, .ok reply⟩ found.parties = none) :
    Steps mailbox op reply mailbox := by
  have hwritten := written haligned hget hadvances hop hothers
  subst hsame
  unfold EndpointOwnedPairingMailbox.written at hwritten
  rw [OrderedMap.set_same hget] at hwritten
  exact hwritten

end Steps

def names (op : Op) (parties : Parties) : Prop :=
  match op with
  | .submitMessage2 input => input.pendingPairingId = parties.pendingPairingId
  | .submitMessage3 input => input.completionId = parties.completionId
  | .confirm input => input.pendingPairingId = parties.pendingPairingId
  | .deliverSealedAuthority input => input.pendingPairingId = parties.pendingPairingId
  | _ => False

theorem names_of_accepted {event : Event} {parties : Parties} {accepted : Accepted}
    (h : event.accepted parties = some accepted) : names event.op parties := by
  unfold Event.accepted at h
  split at h
  · rename_i hop _
    rw [hop]
    exact (Option.ite_none_right_eq_some.mp h).1.1
  · rename_i hop _
    rw [hop]
    exact (Option.ite_none_right_eq_some.mp h).1.1
  · rename_i hop _
    rw [hop]
    exact (Option.ite_none_right_eq_some.mp h).1.1
  · rename_i hop _
    rw [hop]
    exact (Option.ite_none_right_eq_some.mp h).1.1
  · cases h

theorem accepted_others {mailbox : EndpointOwnedPairingMailbox} (haligned : Aligned mailbox) {op : Op}
    {reply : Reply} {record : EndpointPairingMailboxPending}
    (hget : mailbox.pending.get? record.pendingPairingId = some record)
    {accepted : Accepted}
    (haccepted : Event.accepted ⟨mailbox, op, .ok reply⟩ record.parties = some accepted)
    (key : PendingPairingId)
    (found : EndpointPairingMailboxPending) (hfound : mailbox.pending.get? key = some found)
    (hne : key ≠ record.pendingPairingId) :
    Event.accepted ⟨mailbox, op, .ok reply⟩ found.parties = none := by
  have hnames := names_of_accepted haccepted
  cases hfor : Event.accepted ⟨mailbox, op, .ok reply⟩ found.parties with
  | none => rfl
  | some other =>
    have hother := names_of_accepted hfor
    have hid := haligned.pending _ _ hfound
    refine absurd ?_ hne
    cases op with
    | submitMessage2 input => exact hid.symm.trans (Eq.trans (Eq.symm hother) hnames)
    | submitMessage3 input =>
      exact haligned.completion_unique hfound hget (Eq.trans (Eq.symm hother) hnames)
    | confirm input => exact hid.symm.trans (Eq.trans (Eq.symm hother) hnames)
    | deliverSealedAuthority input => exact hid.symm.trans (Eq.trans (Eq.symm hother) hnames)
    | _ => cases hother

section Operations

variable {mailbox : EndpointOwnedPairingMailbox} {α : Type}

abbrev Settles (x : Mailed α) (Q : α → EndpointOwnedPairingMailbox → Prop)
    (mailbox : EndpointOwnedPairingMailbox) : Prop :=
  Ends x Q (fun _ after => after = mailbox) mailbox

theorem settles_guarded {condition : Bool} {e : MailboxError}
    {Q : PUnit → EndpointOwnedPairingMailbox → Prop} (h : condition = true → Q ⟨⟩ mailbox) :
    Settles (guarded condition e) Q mailbox :=
  ends_guarded.mpr ⟨h, fun _ => rfl⟩

theorem settles_found {read : EndpointOwnedPairingMailbox → Option α} {message : String}
    {Q : α → EndpointOwnedPairingMailbox → Prop}
    (h : ∀ value, read mailbox = some value → Q value mailbox) :
    Settles (found read message) Q mailbox := by
  unfold Settles Attempt.Ends found
  cases hread : read mailbox with
  | none => rfl
  | some value => exact h value hread

theorem settles_opaque {value : Bytes} {name : String}
    {Q : PUnit → EndpointOwnedPairingMailbox → Prop} (h : isOpaque value = true → Q ⟨⟩ mailbox) :
    Settles (assertOpaque value name) Q mailbox :=
  settles_guarded h

theorem settles_desktop {record : EndpointPairingMailboxPending} {accountId : PlatformAccountId}
    {installationId : InstallationId} {Q : PUnit → EndpointOwnedPairingMailbox → Prop}
    (h : accountId = record.accountId → installationId = record.desktopInstallationId →
      Q ⟨⟩ mailbox) : Settles (assertDesktop record accountId installationId) Q mailbox :=
  ends_bind.mpr (settles_guarded fun haccount =>
    settles_guarded fun hinstallation =>
      h (of_decide_eq_true haccount).symm (of_decide_eq_true hinstallation).symm)

theorem settles_mobile {record : EndpointPairingMailboxPending} {accountId : PlatformAccountId}
    {installationId : InstallationId} {Q : PUnit → EndpointOwnedPairingMailbox → Prop}
    (h : accountId = record.accountId → installationId = record.mobileInstallationId →
      Q ⟨⟩ mailbox) : Settles (assertMobile record accountId installationId) Q mailbox :=
  ends_bind.mpr (settles_guarded fun haccount =>
    settles_guarded fun hinstallation =>
      h (of_decide_eq_true haccount).symm (of_decide_eq_true hinstallation).symm)

theorem settles_owned (haligned : Aligned mailbox) {pendingPairingId : PendingPairingId}
    {accountId : PlatformAccountId} {installationId : InstallationId}
    {f : EndpointPairingMailboxPending → Mailed α} {Q : α → EndpointOwnedPairingMailbox → Prop}
    (h : ∀ record, mailbox.pending.get? record.pendingPairingId = some record →
      pendingPairingId = record.pendingPairingId → accountId = record.accountId →
        installationId = record.desktopInstallationId → Settles (f record) Q mailbox) :
    Settles (do
      let record ← requirePending pendingPairingId
      assertDesktop record accountId installationId
      f record) Q mailbox := by
  apply ends_bind.mpr
  apply settles_found
  intro record hget
  have hkey := haligned.pending _ _ hget
  apply ends_bind.mpr
  apply settles_desktop
  intro haccount hinstallation
  exact h record (hkey ▸ hget) hkey.symm haccount hinstallation

variable (haligned : Aligned mailbox)

include haligned

theorem createChallenge_steps (input : EndpointPairingMailboxChallenge) :
    Settles (createChallenge input) (fun _ => Steps mailbox (.createChallenge input) .done)
      mailbox := by
  apply ends_bind.mpr
  apply settles_guarded
  intro _
  apply ends_bind.mpr
  apply ends_ask.mpr
  apply ends_bind.mpr
  apply settles_guarded
  intro _
  refine Steps.quiet ⟨?_, haligned.pending, haligned.completions⟩ rfl nofun fun _ => rfl
  intro key challenge hget
  rw [OrderedMap.get?_set] at hget
  split at hget
  · rename_i heq
    cases hget
    exact heq.symm
  · exact haligned.challenges key challenge hget

theorem submitMessage1_steps (input : Message1Input) :
    Settles (submitMessage1 input)
      (fun pendingPairingId => Steps mailbox (.submitMessage1 input) (.pending pendingPairingId))
      mailbox := by
  apply ends_bind.mpr
  apply settles_opaque
  intro hopaque
  apply ends_bind.mpr
  apply ends_ask.mpr
  cases hreplay : mailbox.completion? input.completionId with
  | some replay =>
    apply ends_bind.mpr
    apply settles_mobile
    intro _ _
    apply ends_bind.mpr
    apply settles_guarded
    intro _
    exact Steps.quiet haligned rfl nofun fun _ => rfl
  | none =>
    apply ends_bind.mpr
    apply settles_found
    intro challenge hchallenge
    apply ends_bind.mpr
    apply settles_guarded
    intro haccount
    apply ends_bind.mpr
    apply settles_guarded
    intro htime
    apply ends_bind.mpr
    apply settles_guarded
    intro hunused
    apply ends_bind.mpr
    apply ends_ask.mpr
    apply ends_bind.mpr
    apply settles_guarded
    intro hfresh
    have hpending : mailbox.pending.get? input.allocated = none :=
      OrderedMap.get?_eq_none_of_notMem fun hmem => by
        rw [OrderedMap.has_iff.mpr hmem] at hfresh
        cases hfresh
    refine ⟨haligned.opened hchallenge hpending hreplay, ?_, ?_⟩
    · intro key record hget
      have hne : key ≠ input.allocated := by
        rintro rfl
        rw [hpending] at hget
        cases hget
      unfold EndpointOwnedPairingMailbox.opened
      rw [OrderedMap.get?_set, if_neg hne]
      exact .inr ⟨record, hget, .quiet rfl (not_wipes nofun)⟩
    · intro key next hnone hsome
      unfold EndpointOwnedPairingMailbox.opened at hsome
      rw [OrderedMap.get?_set] at hsome
      split at hsome
      · cases hsome
        exact ⟨hpending, input, challenge, rfl, rfl, hopaque, hreplay, hchallenge,
          of_decide_eq_true haccount, of_decide_eq_true htime,
          Option.isNone_iff_eq_none.mp hunused, rfl⟩
      · rw [hnone] at hsome
        cases hsome

theorem readDesktop_steps (pendingPairingId : PendingPairingId) (accountId : PlatformAccountId)
    (desktopInstallationId : InstallationId) :
    Settles (readDesktop pendingPairingId accountId desktopInstallationId)
      (fun view => Steps mailbox (.readDesktop pendingPairingId accountId desktopInstallationId)
        (.desktop view)) mailbox := by
  apply settles_owned haligned
  intro record _ _ _ _
  exact Steps.quiet haligned rfl nofun fun _ => rfl

theorem submitMessage2_steps (input : Message2Input) :
    Settles (submitMessage2 input)
      (fun completionId => Steps mailbox (.submitMessage2 input) (.completion completionId))
      mailbox := by
  apply ends_bind.mpr
  apply settles_opaque
  intro _
  apply settles_owned haligned
  intro record hget hkey haccount hinstallation
  have haccepted : Event.accepted ⟨mailbox, .submitMessage2 input, .ok (.completion
      record.completionId)⟩ record.parties = some (.message2 input.message2) :=
    if_pos ⟨hkey, haccount, hinstallation⟩
  have hothers := accepted_others haligned hget haccepted
  have hadvances := Advances.message2 input.message2 haccepted
  cases hheld : record.message2 with
  | some held =>
    apply ends_bind.mpr
    apply settles_guarded
    intro _
    rw [hheld, Option.some_or, ← hheld] at hadvances
    exact Steps.unwritten haligned hget hadvances rfl nofun hothers
  | none =>
    rw [hheld, Option.none_or] at hadvances
    exact Steps.written haligned hget hadvances nofun hothers

theorem readMobile_steps (completionId : PairingCompletionId) (accountId : PlatformAccountId)
    (mobileInstallationId : InstallationId) :
    Settles (readMobile completionId accountId mobileInstallationId)
      (fun view => Steps mailbox (.readMobile completionId accountId mobileInstallationId)
        (.mobile view)) mailbox := by
  apply ends_bind.mpr
  apply settles_found
  intro record _
  apply ends_bind.mpr
  apply settles_mobile
  intro _ _
  exact Steps.quiet haligned rfl nofun fun _ => rfl

theorem submitMessage3_steps (input : Message3Input) :
    Settles (submitMessage3 input)
      (fun pendingPairingId => Steps mailbox (.submitMessage3 input) (.pending pendingPairingId))
      mailbox := by
  apply ends_bind.mpr
  apply settles_opaque
  intro _
  apply ends_bind.mpr
  apply settles_found
  intro record hfound
  obtain ⟨hget, hcompletion⟩ := haligned.completion?_eq.mp hfound
  apply ends_bind.mpr
  apply settles_mobile
  intro haccount hinstallation
  apply ends_bind.mpr
  apply settles_guarded
  intro hmessage2
  have haccepted : Event.accepted ⟨mailbox, .submitMessage3 input, .ok (.pending
      record.pendingPairingId)⟩ record.parties = some (.message3 input.message3) :=
    if_pos ⟨hcompletion.symm, haccount, hinstallation⟩
  have hothers := accepted_others haligned hget haccepted
  have hadvances := Advances.message3 input.message3 haccepted hmessage2
  cases hheld : record.message3 with
  | some held =>
    apply ends_bind.mpr
    apply settles_guarded
    intro _
    rw [hheld, Option.some_or, ← hheld] at hadvances
    exact Steps.unwritten haligned hget hadvances rfl nofun hothers
  | none =>
    rw [hheld, Option.none_or] at hadvances
    exact Steps.written haligned hget hadvances nofun hothers

theorem confirm_steps (input : ConfirmInput) :
    Settles (confirm input) (fun _ => Steps mailbox (.confirm input) .done) mailbox := by
  apply settles_owned haligned
  intro record hget hkey haccount hinstallation
  apply ends_bind.mpr
  apply settles_guarded
  intro hmessage3
  apply ends_bind.mpr
  apply settles_guarded
  intro hrejected
  apply ends_bind.mpr
  apply settles_guarded
  intro hpairing
  have haccepted : Event.accepted ⟨mailbox, .confirm input, .ok .done⟩ record.parties =
      some (.confirmed input.pairingId) := if_pos ⟨hkey, haccount, hinstallation⟩
  have hsame : record.confirmed = true → record.pairingId = some input.pairingId := by
    intro hconfirmed
    rw [hconfirmed, Bool.true_and, Bool.not_eq_true', decide_eq_false_iff_not, not_not] at hpairing
    exact hpairing
  exact Steps.written haligned hget (.confirmed input.pairingId _ haccepted hmessage3
    (Bool.not_eq_true' _ |>.mp hrejected) hsame) nofun
    (accepted_others haligned hget haccepted)

theorem cancelChallenge_steps (challengeId : PairingChallengeId) (accountId : PlatformAccountId)
    (desktopInstallationId : InstallationId) :
    Settles (cancelChallenge challengeId accountId desktopInstallationId)
      (fun _ => Steps mailbox (.cancelChallenge challengeId accountId desktopInstallationId) .done)
      mailbox := by
  apply ends_bind.mpr
  apply ends_ask.mpr
  cases mailbox.challenges.get? challengeId with
  | none => exact Steps.quiet haligned rfl nofun fun _ => rfl
  | some challenge =>
    apply ends_bind.mpr
    apply settles_guarded
    intro _
    refine Steps.quiet ⟨?_, haligned.pending, haligned.completions⟩ rfl nofun fun _ => rfl
    intro key found hfound
    rw [OrderedMap.get?_delete] at hfound
    split at hfound
    · cases hfound
    · exact haligned.challenges key found hfound

theorem reject_steps (input : RejectInput) :
    Settles (reject input) (fun _ => Steps mailbox (.reject input) .done) mailbox := by
  apply settles_owned haligned
  intro record hget _ _ _
  apply ends_bind.mpr
  apply settles_guarded
  intro hconfirmed
  exact Steps.written haligned hget (.rejected _ rfl (Bool.not_eq_true' _ |>.mp hconfirmed)) nofun
    fun _ _ _ _ => rfl

theorem Steps.mapped {after : EndpointOwnedPairingMailbox} {op : Op} {reply : Reply}
    (hafter : Aligned after) {f : EndpointPairingMailboxPending → EndpointPairingMailboxPending}
    (hget : ∀ key next, after.pending.get? key = some next →
      ∃ record, mailbox.pending.get? key = some record ∧ next = f record)
    (hadvances : ∀ record, mailbox.pending.get? record.pendingPairingId = some record →
      Advances ⟨mailbox, op, .ok reply⟩ record (f record)) : Steps mailbox op reply after where
  aligned := hafter
  advances := by
    intro key record hrecord
    cases hnext : after.pending.get? key with
    | none => exact .inl rfl
    | some next =>
      obtain ⟨found, hfound, rfl⟩ := hget key next hnext
      rw [hrecord] at hfound
      cases hfound
      have hkey := haligned.pending _ _ hrecord
      exact .inr ⟨_, rfl, hadvances record (hkey.symm ▸ hrecord)⟩
  opens := by
    intro key next hnone hnext
    obtain ⟨record, hrecord, -⟩ := hget key next hnext
    rw [hnone] at hrecord
    cases hrecord

theorem evict_steps (now replayRetentionMs : Int) :
    Settles (evict now replayRetentionMs)
      (fun _ => Steps mailbox (.evict now replayRetentionMs) .done) mailbox := by
  have hparties := EndpointPairingMailboxPending.parties_expire now
  have hafter := ((haligned.filterChallenges fun _ challenge =>
    !decide (challenge.expiresAt ≤ now)).mapValues hparties).shed (·.isShed (now - replayRetentionMs))
  refine Steps.mapped haligned (f := (·.expire now)) hafter ?_ ?_
  · intro key next hnext
    rw [OrderedMap.get?_filter, OrderedMap.get?_mapValues] at hnext
    obtain ⟨record, hrecord, rfl⟩ := Option.map_eq_some_iff.mp (Option.filter_eq_some_iff.mp hnext).1
    exact ⟨record, hrecord, rfl⟩
  · intro record hget
    cases hexpired : record.isExpired now with
    | true => exact .expired now rfl ⟨now, replayRetentionMs, record, rfl, hget, hexpired⟩ hexpired
    | false =>
      rw [EndpointPairingMailboxPending.expire_of_not now hexpired]
      refine .quiet rfl ?_
      rintro ⟨at', _, found, hop, hfound, hwiped⟩
      cases hop
      rw [hget] at hfound
      cases hfound
      rw [hexpired] at hwiped
      cases hwiped

theorem disable_steps (accountId : PlatformAccountId) (desktopInstallationId : InstallationId)
    (now : Int) :
    Settles (disable accountId desktopInstallationId now)
      (fun _ => Steps mailbox (.disable accountId desktopInstallationId now) .done) mailbox := by
  have hparties : ∀ record : EndpointPairingMailboxPending,
      (if record.isOwnedBy accountId desktopInstallationId then record.disable now
        else record).parties = record.parties := by
    intro record
    split <;> rfl
  have hafter := (haligned.filterChallenges fun _ challenge => !decide (challenge.accountId = accountId
    ∧ challenge.desktopInstallationId = desktopInstallationId)).mapValues hparties
  refine Steps.mapped haligned (f := fun record =>
    if record.isOwnedBy accountId desktopInstallationId then record.disable now else record)
    hafter ?_ ?_
  · intro key next hnext
    rw [OrderedMap.get?_mapValues] at hnext
    obtain ⟨record, hrecord, rfl⟩ := Option.map_eq_some_iff.mp hnext
    exact ⟨record, hrecord, rfl⟩
  · intro record _
    split
    · exact .disabled now rfl
    · exact .quiet rfl (not_wipes nofun)

theorem deliverSealedAuthority_steps (input : AuthorityInput) :
    Settles (deliverSealedAuthority input)
      (fun _ => Steps mailbox (.deliverSealedAuthority input) .done) mailbox := by
  apply ends_bind.mpr
  apply settles_opaque
  intro _
  apply settles_owned haligned
  intro record hget hkey haccount hinstallation
  apply ends_bind.mpr
  apply settles_guarded
  intro hconfirmed
  apply ends_bind.mpr
  apply settles_guarded
  intro _
  have haccepted : Event.accepted ⟨mailbox, .deliverSealedAuthority input, .ok .done⟩
      record.parties = some (.authority input.sealedRelayAuthority) :=
    if_pos ⟨hkey, haccount, hinstallation⟩
  exact Steps.written haligned hget (.authority _ haccepted hconfirmed) nofun
    (accepted_others haligned hget haccepted)

omit haligned in
theorem foldOk_restoreChallenge {entries : List (PairingChallengeId × EndpointPairingMailboxChallenge)}
    (hkeys : ∀ entry ∈ entries, entry.2.challengeId = entry.1) {built : EndpointOwnedPairingMailbox}
    (hnodup : ((built.challenges.entries ++ entries).map Prod.fst).Nodup) :
    ∃ after, foldOk restoreChallenge built (entries.map Prod.snd) = .ok after ∧
      after.challenges.entries = built.challenges.entries ++ entries ∧
        after.pending = built.pending ∧ after.completions = built.completions := by
  induction entries generalizing built with
  | nil => exact ⟨built, rfl, (List.append_nil _).symm, rfl, rfl⟩
  | cons entry entries ih =>
    obtain ⟨key, challenge⟩ := entry
    obtain rfl : challenge.challengeId = key := hkeys _ List.mem_cons_self
    have hnew : challenge.challengeId ∉ built.challenges.keys := by
      rw [List.map_append, List.nodup_append] at hnodup
      exact fun hmem => hnodup.2.2 _ hmem _ List.mem_cons_self rfl
    have hentries := OrderedMap.entries_set_new hnew challenge
    obtain ⟨after, hfold, hafter, hpending, hcompletions⟩ := @ih
      (fun entry hmem => hkeys entry (List.mem_cons_of_mem _ hmem))
      { built with challenges := built.challenges.set challenge.challengeId challenge }
      (by rw [hentries, List.append_assoc]; exact hnodup)
    refine ⟨after, ?_, ?_, hpending, hcompletions⟩
    · rw [List.map_cons, foldOk_cons]
      unfold restoreChallenge
      rw [if_neg (fun hhas => hnew (OrderedMap.has_iff.mp hhas))]
      exact hfold
    · rw [hafter, hentries, List.append_assoc]
      rfl

omit haligned in
theorem foldOk_restorePending {entries : List (PendingPairingId × EndpointPairingMailboxPending)}
    (hkeys : ∀ entry ∈ entries, entry.2.pendingPairingId = entry.1)
    {built : EndpointOwnedPairingMailbox}
    (hnodup : ((built.pending.entries ++ entries).map Prod.fst).Nodup)
    (hcompletions : (built.completions.entries.map Prod.fst ++
      entries.map fun entry => entry.2.completionId).Nodup) :
    ∃ after, foldOk restorePending built (entries.map Prod.snd) = .ok after ∧
      after.challenges = built.challenges ∧
        after.pending.entries = built.pending.entries ++ entries ∧
          after.completions.entries = built.completions.entries ++
            entries.map fun entry => (entry.2.completionId, entry.1) := by
  induction entries generalizing built with
  | nil => exact ⟨built, rfl, rfl, (List.append_nil _).symm, (List.append_nil _).symm⟩
  | cons entry entries ih =>
    obtain ⟨key, record⟩ := entry
    obtain rfl : record.pendingPairingId = key := hkeys _ List.mem_cons_self
    have hnew : record.pendingPairingId ∉ built.pending.keys := by
      rw [List.map_append, List.nodup_append] at hnodup
      exact fun hmem => hnodup.2.2 _ hmem _ List.mem_cons_self rfl
    have hfree : record.completionId ∉ built.completions.keys := by
      rw [List.nodup_append] at hcompletions
      exact fun hmem => hcompletions.2.2 _ hmem _ List.mem_cons_self rfl
    have hentries := OrderedMap.entries_set_new hnew record
    have hnames := OrderedMap.entries_set_new hfree record.pendingPairingId
    obtain ⟨after, hfold, hchallenges, hpending, hafter⟩ := @ih
      (fun entry hmem => hkeys entry (List.mem_cons_of_mem _ hmem))
      { built with
        pending := built.pending.set record.pendingPairingId record
        completions := built.completions.set record.completionId record.pendingPairingId }
      (by rw [hentries, List.append_assoc]; exact hnodup)
      (by rw [hnames, List.map_append, List.append_assoc]; exact hcompletions)
    refine ⟨after, ?_, hchallenges, ?_, ?_⟩
    · rw [List.map_cons, foldOk_cons]
      unfold restorePending
      rw [if_neg]
      · exact hfold
      · rw [Bool.or_eq_true, OrderedMap.has_iff, OrderedMap.has_iff]
        rintro (hmem | hmem)
        · exact hnew hmem
        · exact hfree hmem
    · rw [hpending, hentries, List.append_assoc]
      rfl
    · rw [hafter, hnames, List.append_assoc]
      rfl

theorem construct_exportState : construct mailbox.exportState = .ok mailbox := by
  obtain ⟨built, hbuilt, hchallenges, hpending, hcompletions⟩ := @foldOk_restoreChallenge
    mailbox.challenges.entries
    (fun entry hmem => haligned.challenges _ _ (OrderedMap.mem_entries_iff.mp hmem))
    .empty mailbox.challenges.nodup
  have hnames : mailbox.completions.entries.map Prod.fst =
      mailbox.pending.entries.map fun entry => entry.2.completionId := by
    rw [haligned.completions, List.map_map]
    rfl
  obtain ⟨after, hafter, hkept, hrecords, hindex⟩ := @foldOk_restorePending mailbox.pending.entries
    (fun entry hmem => haligned.pending _ _ (OrderedMap.mem_entries_iff.mp hmem)) built
    (by rw [hpending]; exact mailbox.pending.nodup)
    (by rw [hcompletions, ← hnames]; exact mailbox.completions.nodup)
  have hsame : after = mailbox := by
    obtain ⟨challenges, pending, completions⟩ := after
    obtain ⟨challenges', pending', completions'⟩ := mailbox
    rw [EndpointOwnedPairingMailbox.mk.injEq]
    refine ⟨OrderedMap.ext ?_, OrderedMap.ext ?_, OrderedMap.ext ?_⟩
    · rw [show challenges = built.challenges from hkept, hchallenges]
      rfl
    · rw [show pending.entries = _ from hrecords, hpending]
      rfl
    · rw [show completions.entries = _ from hindex, hcompletions]
      exact haligned.completions.symm
  unfold construct exportState
  change (foldOk restoreChallenge .empty (mailbox.challenges.entries.map Prod.snd) >>=
    fun mailbox' => foldOk restorePending mailbox' (mailbox.pending.entries.map Prod.snd)) = _
  rw [hbuilt, ← hsame]
  exact hsame ▸ hafter

theorem rebuild_steps : Settles rebuild (fun _ => Steps mailbox .rebuild .done) mailbox := by
  unfold Settles Attempt.Ends rebuild
  rw [construct_exportState haligned]
  exact Steps.quiet haligned rfl nofun fun _ => rfl

theorem perform_steps (op : Op) : Settles (perform op) (Steps mailbox op) mailbox := by
  cases op with
  | createChallenge input => exact ends_map.mpr (createChallenge_steps haligned input)
  | submitMessage1 input => exact ends_map.mpr (submitMessage1_steps haligned input)
  | readDesktop pendingPairingId accountId desktopInstallationId =>
    exact ends_map.mpr (readDesktop_steps haligned pendingPairingId accountId desktopInstallationId)
  | submitMessage2 input => exact ends_map.mpr (submitMessage2_steps haligned input)
  | readMobile completionId accountId mobileInstallationId =>
    exact ends_map.mpr (readMobile_steps haligned completionId accountId mobileInstallationId)
  | submitMessage3 input => exact ends_map.mpr (submitMessage3_steps haligned input)
  | confirm input => exact ends_map.mpr (confirm_steps haligned input)
  | cancelChallenge challengeId accountId desktopInstallationId =>
    exact ends_map.mpr (cancelChallenge_steps haligned challengeId accountId desktopInstallationId)
  | reject input => exact ends_map.mpr (reject_steps haligned input)
  | evict now replayRetentionMs => exact ends_map.mpr (evict_steps haligned now replayRetentionMs)
  | disable accountId desktopInstallationId now =>
    exact ends_map.mpr (disable_steps haligned accountId desktopInstallationId now)
  | deliverSealedAuthority input => exact ends_map.mpr (deliverSealedAuthority_steps haligned input)
  | rebuild => exact ends_map.mpr (rebuild_steps haligned)

end Operations

end Harness.RemoteAccess
