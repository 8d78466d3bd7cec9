import Harness.RemoteAccess.RelayProvider

namespace Harness.RemoteAccess.Relay

open Harness.Foundation
open RemoteRelayProvider

namespace AttachPhase

def replaces? : AttachPhase → Option ConnectionToken
  | .replacing existing _ _ => some existing
  | _ => none

def acquires : AttachPhase → Bool
  | .authorizing capacityHeld => capacityHeld
  | _ => false

def failed? : AttachPhase → Option ConnectionToken
  | .cleaning attached _ => some attached
  | .rejected attached => attached
  | _ => none

/-- The call is under way and has its attachment, which holds the token now. -/
structure Attaches (phase : AttachPhase) (token : ConnectionToken) : Prop where
  active : phase.isActive = true
  holds : phase.holdsCapacity = false
  attached : phase.attached? = some token

variable (token : ConnectionToken) (fulfilled : Bool) (phase : AttachPhase)

theorem hear_congr {α : Type} {token : ConnectionToken} {fulfilled : Bool} {phase : AttachPhase}
    {read : AttachPhase → α}
    (hreplacing : ∀ existing answer other capacityHeld,
      read (.replacing existing answer capacityHeld) = read (.replacing existing other capacityHeld))
    (hcleaning : ∀ attached answer other,
      read (.cleaning attached answer) = read (.cleaning attached other)) :
    read (phase.hear token fulfilled) = read phase := by
  unfold hear
  split
  · exact hreplacing _ _ _ _
  · exact hcleaning _ _ _
  · rfl

@[simp] theorem isActive_hear : (phase.hear token fulfilled).isActive = phase.isActive :=
  hear_congr (fun _ _ _ _ => rfl) fun _ _ _ => rfl

@[simp] theorem holdsCapacity_hear :
    (phase.hear token fulfilled).holdsCapacity = phase.holdsCapacity :=
  hear_congr (fun _ _ _ _ => rfl) fun _ _ _ => rfl

@[simp] theorem attached?_hear : (phase.hear token fulfilled).attached? = phase.attached? :=
  hear_congr (fun _ _ _ _ => rfl) fun _ _ _ => rfl

@[simp] theorem replaces?_hear : (phase.hear token fulfilled).replaces? = phase.replaces? :=
  hear_congr (fun _ _ _ _ => rfl) fun _ _ _ => rfl

@[simp] theorem acquires_hear : (phase.hear token fulfilled).acquires = phase.acquires :=
  hear_congr (fun _ _ _ _ => rfl) fun _ _ _ => rfl

@[simp] theorem failed?_hear : (phase.hear token fulfilled).failed? = phase.failed? :=
  hear_congr (fun _ _ _ _ => rfl) fun _ _ _ => rfl

end AttachPhase

namespace RemoteRelayProvider

def heldByAttachments (provider : RemoteRelayProvider) : Nat :=
  provider.locals.values.countP (·.capacityHeld)

def heldByCalls (provider : RemoteRelayProvider) : Nat :=
  provider.calls.values.countP (·.phase.holdsCapacity)

def occupied (provider : RemoteRelayProvider) : Finset String :=
  (provider.attachments.keys ++ provider.attachmentReservations).toFinset

end RemoteRelayProvider

/-- The attachments and the calls agree, and with a gate each open attachment has its token. -/
structure Admitted (config : RelayConfig) (gate : Prop) (provider : RemoteRelayProvider) : Prop where
  drawn : ∀ token attachment, provider.locals.get? token = some attachment → token < provider.next
  called : ∀ id call, provider.calls.get? id = some call → id < provider.next
  reserved : ∀ id call, provider.calls.get? id = some call → call.phase.isActive = true →
    call.key ∈ provider.attachmentReservations
  apart : ∀ id call other found, provider.calls.get? id = some call →
    provider.calls.get? other = some found → call.phase.isActive = true →
      found.phase.isActive = true → call.key = found.key → id = other
  keyed : ∀ key token, provider.attachments.get? key = some token →
    ∃ attachment, provider.locals.get? token = some attachment ∧ attachment.key = key
  held : ∀ token attachment, provider.locals.get? token = some attachment →
    attachment.capacityHeld = true → provider.attachments.get? attachment.key = some token
  owned : ∀ id call token, provider.calls.get? id = some call →
    call.phase.attached? = some token →
      ∃ attachment, provider.locals.get? token = some attachment ∧ attachment.key = call.key
  replaced : ∀ id call existing, provider.calls.get? id = some call →
    call.phase.replaces? = some existing →
      (∀ token, provider.attachments.get? call.key = some token → token = existing) ∧
        ∃ attachment, provider.locals.get? existing = some attachment ∧
          attachment.capacityHeld = false ∧ attachment.closed = true
  failed : ∀ id call token, provider.calls.get? id = some call → call.phase.failed? = some token →
    ∃ attachment, provider.locals.get? token = some attachment ∧ attachment.closed = true
  vacant : ∀ id call, provider.calls.get? id = some call → call.phase.acquires = true →
    provider.attachments.get? call.key = none
  closing : ∀ token attachment, provider.locals.get? token = some attachment →
    attachment.closeTransaction.isSome = true → attachment.closed = true
  balance : provider.acquired =
    provider.released + provider.heldByAttachments + provider.heldByCalls
  bounded : provider.occupied.card ≤ config.maxConnections
  covered : gate → ∀ key token attachment,
    provider.attachments.get? key = some token → provider.locals.get? token = some attachment →
      attachment.closed = false → attachment.capacityHeld = true
  taken : gate → ∀ id call, provider.calls.get? id = some call →
    call.phase.replaces?.isSome = true → call.phase.holdsCapacity = true

theorem fresh_admitted (config : RelayConfig) (gate : Prop) : Admitted config gate .fresh where
  drawn := fun _ _ h => by cases h
  called := fun _ _ h => by cases h
  reserved := fun _ _ h => by cases h
  apart := fun _ _ _ _ h => by cases h
  keyed := fun _ _ h => by cases h
  held := fun _ _ h => by cases h
  owned := fun _ _ _ h => by cases h
  replaced := fun _ _ _ h => by cases h
  failed := fun _ _ _ h => by cases h
  vacant := fun _ _ h => by cases h
  closing := fun _ _ h => by cases h
  balance := rfl
  bounded := Nat.zero_le _
  covered := fun _ _ _ _ h => by cases h
  taken := fun _ _ _ h => by cases h

theorem toNat_eq_ite (b : Bool) : b.toNat = if b = true then 1 else 0 := by
  cases b <;> rfl

theorem countP_values_replace {α κ : Type} [DecidableEq κ] {m : OrderedMap κ α} {key : κ}
    {old : α} (hget : m.get? key = some old) (new : α) (p : α → Bool) :
    (m.set key new).values.countP p + (p old).toNat = m.values.countP p + (p new).toNat := by
  have hcount := OrderedMap.countP_values_set m key new p
  rw [hget, Option.toList_some, List.countP_singleton, List.countP_singleton] at hcount
  simpa only [toNat_eq_ite] using hcount

theorem countP_values_insert {α κ : Type} [DecidableEq κ] {m : OrderedMap κ α} {key : κ}
    (hget : m.get? key = none) (new : α) (p : α → Bool) :
    (m.set key new).values.countP p = m.values.countP p + (p new).toNat := by
  have hcount := OrderedMap.countP_values_set m key new p
  rw [hget, Option.toList_none, List.countP_nil, List.countP_singleton, Nat.add_zero] at hcount
  simpa only [toNat_eq_ite] using hcount

theorem countP_values_mapValues {α κ : Type} {m : OrderedMap κ α} {f : α → α} {p : α → Bool}
    (hf : ∀ a, p (f a) = p a) : (m.mapValues f).values.countP p = m.values.countP p := by
  unfold OrderedMap.values OrderedMap.mapValues
  rw [List.map_map, List.countP_map, List.countP_map]
  apply List.countP_congr
  intro entry _
  rw [Function.comp_apply, Function.comp_apply, Function.comp_apply, hf]

namespace Admitted

variable {config : RelayConfig} {gate : Prop} {provider : RemoteRelayProvider}

/-- A change of an attachment that leaves its key and does not reopen it; a token that it gives up is
released. -/
theorem setLocal (h : Admitted config gate provider) {token : ConnectionToken}
    {attachment next : LocalAttachment} {released : Nat}
    (hget : provider.locals.get? token = some attachment) (hkey : next.key = attachment.key)
    (hclosed : attachment.closed = true → next.closed = true)
    (hclosing : next.closeTransaction.isSome = true → next.closed = true)
    (hheld : next.capacityHeld = attachment.capacityHeld ∨
      next.capacityHeld = false ∧ next.closed = true)
    (hreleased : released + next.capacityHeld.toNat =
      provider.released + attachment.capacityHeld.toNat) :
    Admitted config gate ({ provider with released }.setLocal token next) := by
  have hcapacity : next.capacityHeld = true → attachment.capacityHeld = true := by
    rcases hheld with hsame | ⟨hnone, -⟩
    · exact hsame.symm.trans
    · exact fun heq => absurd (hnone.symm.trans heq) nofun
  have hlocals : ∀ other found,
      ({ provider with released }.setLocal token next).locals.get? other = some found →
        other = token ∧ found = next ∨ provider.locals.get? other = some found := by
    intro other found hfound
    exact (OrderedMap.of_get?_set hfound).imp_right And.right
  have hkept : ∀ other earlier, provider.locals.get? other = some earlier →
      ∃ found, ({ provider with released }.setLocal token next).locals.get? other = some found ∧
        found.key = earlier.key ∧ (found.capacityHeld = true → earlier.capacityHeld = true) ∧
          (earlier.closed = true → found.closed = true) := by
    intro other earlier hearlier
    unfold RemoteRelayProvider.setLocal
    rw [OrderedMap.get?_set]
    split
    · rename_i heq
      rw [heq, hget] at hearlier
      cases hearlier
      exact ⟨next, rfl, hkey, hcapacity, hclosed⟩
    · exact ⟨earlier, hearlier, rfl, id, id⟩
  refine { h with
    drawn := ?_, keyed := ?_, held := ?_, owned := ?_, replaced := ?_, failed := ?_, closing := ?_
    balance := ?_, covered := ?_ }
  · intro other found hfound
    rcases hlocals other found hfound with ⟨rfl, -⟩ | hold
    · exact h.drawn _ _ hget
    · exact h.drawn other found hold
  · intro key other hother
    obtain ⟨earlier, hearlier, heq⟩ := h.keyed key other hother
    obtain ⟨found, hfound, hsame, -⟩ := hkept other earlier hearlier
    exact ⟨found, hfound, hsame.trans heq⟩
  · intro other found hfound hholds
    rcases hlocals other found hfound with ⟨rfl, rfl⟩ | hold
    · rw [hkey]
      exact h.held _ attachment hget (hcapacity hholds)
    · exact h.held other found hold hholds
  · intro id call other hcall hother
    obtain ⟨earlier, hearlier, heq⟩ := h.owned id call other hcall hother
    obtain ⟨found, hfound, hsame, -⟩ := hkept other earlier hearlier
    exact ⟨found, hfound, hsame.trans heq⟩
  · intro id call existing hcall hexisting
    obtain ⟨hsingle, earlier, hearlier, hnone, hclose⟩ := h.replaced id call existing hcall hexisting
    obtain ⟨found, hfound, -, hholds, hstays⟩ := hkept existing earlier hearlier
    refine ⟨hsingle, found, hfound, ?_, hstays hclose⟩
    rw [Bool.eq_false_iff]
    intro heq
    exact absurd (hnone.symm.trans (hholds heq)) nofun
  · intro id call other hcall hother
    obtain ⟨earlier, hearlier, hclose⟩ := h.failed id call other hcall hother
    obtain ⟨found, hfound, -, -, hstays⟩ := hkept other earlier hearlier
    exact ⟨found, hfound, hstays hclose⟩
  · intro other found hfound hsome
    rcases hlocals other found hfound with ⟨rfl, rfl⟩ | hold
    · exact hclosing hsome
    · exact h.closing other found hold hsome
  · have hcount := countP_values_replace hget next (·.capacityHeld)
    have hbalance := h.balance
    unfold heldByAttachments heldByCalls at hbalance ⊢
    unfold RemoteRelayProvider.setLocal
    dsimp only at hcount ⊢
    omega
  · intro hgate key other found hother hfound hopen
    rcases hlocals other found hfound with ⟨rfl, rfl⟩ | hold
    · rcases hheld with hsame | ⟨-, hclose⟩
      · rw [hsame]
        apply h.covered hgate key _ attachment hother hget
        cases hclose : attachment.closed with
        | false => rfl
        | true => rw [← hopen, hclosed hclose]
      · rw [hopen] at hclose
        cases hclose
    · exact h.covered hgate key other found hother hold hopen

theorem detach (h : Admitted config gate provider) {key : String} {token : ConnectionToken}
    {attachment : LocalAttachment} (hkey : provider.attachments.get? key = some token)
    (hget : provider.locals.get? token = some attachment)
    (hheld : attachment.capacityHeld = false) :
    Admitted config gate { provider with attachments := provider.attachments.delete key } := by
  have htable : ∀ other found, (provider.attachments.delete key).get? other = some found →
      other ≠ key ∧ provider.attachments.get? other = some found := by
    intro other found hfound
    rw [OrderedMap.get?_delete] at hfound
    split at hfound
    · cases hfound
    · rename_i hne
      exact ⟨hne, hfound⟩
  refine { h with
    keyed := ?_, held := ?_, replaced := ?_, vacant := ?_, bounded := ?_, covered := ?_ }
  · intro other found hfound
    exact h.keyed other found (htable other found hfound).2
  · intro other found hfound hholds
    have hother := h.held other found hfound hholds
    dsimp only
    rw [OrderedMap.get?_delete, if_neg ?_]
    · exact hother
    · intro heq
      rw [heq, hkey] at hother
      cases hother
      have hsame := hget.symm.trans hfound
      cases hsame
      rw [hheld] at hholds
      cases hholds
  · intro id call existing hcall hexisting
    obtain ⟨hsingle, hlocal⟩ := h.replaced id call existing hcall hexisting
    exact ⟨fun other hother => hsingle other (htable _ other hother).2, hlocal⟩
  · intro id call hcall hacquires
    dsimp only
    rw [OrderedMap.get?_delete]
    split
    · rfl
    · exact h.vacant id call hcall hacquires
  · refine (Finset.card_le_card ?_).trans h.bounded
    intro other hmem
    unfold occupied at hmem ⊢
    rw [List.mem_toFinset, List.mem_append] at hmem ⊢
    refine hmem.imp_left fun hmem => ?_
    rw [OrderedMap.keys_delete_eq] at hmem
    exact (List.mem_filter.mp hmem).1
  · intro hgate other found local' hfound
    exact h.covered hgate other found local' (htable other found hfound).2

theorem setPhase (h : Admitted config gate provider) {id : CallId} {call : AttachCall}
    {phase : AttachPhase} {released : Nat} (hget : provider.calls.get? id = some call)
    (hholds : released + phase.holdsCapacity.toNat =
      provider.released + call.phase.holdsCapacity.toNat)
    (hactive : phase.isActive = true → call.phase.isActive = true)
    (hattached : ∀ token, phase.attached? = some token → call.phase.attached? = some token)
    (hreplaces : ∀ existing, phase.replaces? = some existing →
      (∀ token, provider.attachments.get? call.key = some token → token = existing) ∧
        ∃ attachment, provider.locals.get? existing = some attachment ∧
          attachment.capacityHeld = false ∧ attachment.closed = true)
    (htaken : gate → phase.replaces?.isSome = true → phase.holdsCapacity = true)
    (hacquires : phase.acquires = false)
    (hfailed : ∀ token, phase.failed? = some token →
      ∃ attachment, provider.locals.get? token = some attachment ∧ attachment.closed = true) :
    Admitted config gate ({ provider with released }.setPhase id call phase) := by
  have hcalls : ∀ other found,
      ({ provider with released }.setPhase id call phase).calls.get? other = some found →
        other = id ∧ found = { call with phase } ∨ provider.calls.get? other = some found := by
    intro other found hfound
    exact (OrderedMap.of_get?_set hfound).imp_right And.right
  refine { h with
    called := ?_, reserved := ?_, apart := ?_, owned := ?_, replaced := ?_, failed := ?_
    vacant := ?_, balance := ?_, taken := ?_ }
  · intro other found hfound
    rcases hcalls other found hfound with ⟨rfl, -⟩ | hold
    · exact h.called _ _ hget
    · exact h.called other found hold
  · intro other found hfound hfoundActive
    rcases hcalls other found hfound with ⟨rfl, rfl⟩ | hold
    · exact h.reserved _ call hget (hactive hfoundActive)
    · exact h.reserved other found hold hfoundActive
  · intro other found third last hfound hlast hfoundActive hlastActive heq
    rcases hcalls other found hfound with ⟨rfl, rfl⟩ | hold
    · rcases hcalls third last hlast with ⟨rfl, rfl⟩ | hkept
      · rfl
      · exact h.apart _ _ third last hget hkept (hactive hfoundActive) hlastActive heq
    · rcases hcalls third last hlast with ⟨rfl, rfl⟩ | hkept
      · exact h.apart other found _ _ hold hget hfoundActive (hactive hlastActive) heq
      · exact h.apart other found third last hold hkept hfoundActive hlastActive heq
  · intro other found token hfound htoken
    rcases hcalls other found hfound with ⟨rfl, rfl⟩ | hold
    · exact h.owned _ call token hget (hattached token htoken)
    · exact h.owned other found token hold htoken
  · intro other found existing hfound hexisting
    rcases hcalls other found hfound with ⟨rfl, rfl⟩ | hold
    · exact hreplaces existing hexisting
    · exact h.replaced other found existing hold hexisting
  · intro other found token hfound htoken
    rcases hcalls other found hfound with ⟨rfl, rfl⟩ | hold
    · exact hfailed token htoken
    · exact h.failed other found token hold htoken
  · intro other found hfound hsome
    rcases hcalls other found hfound with ⟨rfl, rfl⟩ | hold
    · exact absurd (hacquires.symm.trans hsome) nofun
    · exact h.vacant other found hold hsome
  · have hcount := countP_values_replace hget { call with phase } (·.phase.holdsCapacity)
    have hbalance := h.balance
    unfold heldByAttachments heldByCalls at hbalance ⊢
    unfold RemoteRelayProvider.setPhase
    dsimp only at hcount ⊢
    omega
  · intro hcapacity other found hfound hsome
    rcases hcalls other found hfound with ⟨rfl, rfl⟩ | hold
    · exact htaken hcapacity hsome
    · exact h.taken hcapacity other found hold hsome

theorem unreserve (h : Admitted config gate provider) {key : String}
    (hunique : ∀ id call, provider.calls.get? id = some call → call.phase.isActive = true →
      call.key ≠ key) :
    Admitted config gate { provider with
      attachmentReservations := provider.attachmentReservations.filter (· ≠ key) } := by
  refine { h with reserved := ?_, bounded := ?_ }
  · intro other found hfound hfoundActive
    exact List.mem_filter.mpr ⟨h.reserved other found hfound hfoundActive,
      decide_eq_true (hunique other found hfound hfoundActive)⟩
  · refine (Finset.card_le_card ?_).trans h.bounded
    intro key hkey
    unfold occupied at hkey ⊢
    rw [List.mem_toFinset, List.mem_append] at hkey ⊢
    exact hkey.imp_right fun hmem => (List.mem_filter.mp hmem).1

theorem endCall (h : Admitted config gate provider) {id : CallId} {call : AttachCall}
    {phase : AttachPhase} {released : Nat} (hget : provider.calls.get? id = some call)
    (hbefore : call.phase.isActive = true)
    (hholds : released = provider.released + call.phase.holdsCapacity.toNat)
    (hactive : phase.isActive = false)
    (hattached : ∀ token, phase.attached? = some token → call.phase.attached? = some token)
    (hfailed : ∀ token, phase.failed? = some token →
      ∃ attachment, provider.locals.get? token = some attachment ∧ attachment.closed = true) :
    Admitted config gate ({ provider with released }.endCall id call phase) := by
  have hidle : phase.replaces? = none ∧ phase.acquires = false ∧ phase.holdsCapacity = false := by
    cases phase with
    | resolved _ => exact ⟨rfl, rfl, rfl⟩
    | rejected _ => exact ⟨rfl, rfl, rfl⟩
    | _ => cases hactive
  obtain ⟨hreplaces, hacquires, hnone⟩ := hidle
  have hphase := h.setPhase hget (by rw [hnone]; exact hholds)
    (fun heq => absurd (hactive.symm.trans heq) nofun) hattached
    (fun existing heq => absurd (hreplaces.symm.trans heq) nofun)
    (fun _ hsome => by rw [hreplaces] at hsome; cases hsome) hacquires hfailed
  refine hphase.unreserve ?_
  intro other found hfound hfoundActive heq
  unfold RemoteRelayProvider.setPhase at hfound
  rw [OrderedMap.get?_set] at hfound
  split at hfound
  · cases hfound
    exact absurd (hactive.symm.trans hfoundActive) nofun
  · rename_i hne
    exact hne (h.apart other found id call hfound hget hfoundActive hbefore heq)

theorem hear (h : Admitted config gate provider) (token : ConnectionToken) (fulfilled : Bool) :
    Admitted config gate { provider with calls := provider.calls.mapValues (·.hear token fulfilled) } := by
  have hcalls : ∀ id found,
      (provider.calls.mapValues (·.hear token fulfilled)).get? id = some found →
        ∃ call, provider.calls.get? id = some call ∧ found = call.hear token fulfilled := by
    intro id found hfound
    rw [OrderedMap.get?_mapValues] at hfound
    obtain ⟨call, hcall, rfl⟩ := Option.map_eq_some_iff.mp hfound
    exact ⟨call, hcall, rfl⟩
  refine { h with
    called := ?_, reserved := ?_, apart := ?_, owned := ?_, replaced := ?_, failed := ?_
    vacant := ?_, balance := ?_, taken := ?_ }
  · intro id found hfound
    obtain ⟨call, hcall, -⟩ := hcalls id found hfound
    exact h.called id call hcall
  · intro id found hfound hactive
    obtain ⟨call, hcall, rfl⟩ := hcalls id found hfound
    exact h.reserved id call hcall ((AttachPhase.isActive_hear _ _ _).symm.trans hactive)
  · intro id found other last hfound hlast hactive hlastActive heq
    obtain ⟨call, hcall, rfl⟩ := hcalls id found hfound
    obtain ⟨call', hcall', rfl⟩ := hcalls other last hlast
    exact h.apart id call other call' hcall hcall'
      ((AttachPhase.isActive_hear _ _ _).symm.trans hactive)
      ((AttachPhase.isActive_hear _ _ _).symm.trans hlastActive) heq
  · intro id found other hfound hother
    obtain ⟨call, hcall, rfl⟩ := hcalls id found hfound
    exact h.owned id call other hcall ((AttachPhase.attached?_hear _ _ _).symm.trans hother)
  · intro id found existing hfound hexisting
    obtain ⟨call, hcall, rfl⟩ := hcalls id found hfound
    exact h.replaced id call existing hcall ((AttachPhase.replaces?_hear _ _ _).symm.trans hexisting)
  · intro id found other hfound hother
    obtain ⟨call, hcall, rfl⟩ := hcalls id found hfound
    exact h.failed id call other hcall ((AttachPhase.failed?_hear _ _ _).symm.trans hother)
  · intro id found hfound hacquires
    obtain ⟨call, hcall, rfl⟩ := hcalls id found hfound
    exact h.vacant id call hcall ((AttachPhase.acquires_hear _ _ _).symm.trans hacquires)
  · have hcount : (provider.calls.mapValues (·.hear token fulfilled)).values.countP
        (·.phase.holdsCapacity) = provider.calls.values.countP (·.phase.holdsCapacity) :=
      countP_values_mapValues fun call => AttachPhase.holdsCapacity_hear token fulfilled call.phase
    have hbalance := h.balance
    unfold heldByAttachments heldByCalls at hbalance ⊢
    dsimp only
    rw [hcount]
    exact hbalance
  · intro hcapacity id found hfound hsome
    obtain ⟨call, hcall, rfl⟩ := hcalls id found hfound
    have hreplaces := AttachPhase.replaces?_hear token fulfilled call.phase
    have hholds := AttachPhase.holdsCapacity_hear token fulfilled call.phase
    exact hholds.trans (h.taken hcapacity id call hcall (hreplaces ▸ hsome))

theorem closeAndDrain (h : Admitted config gate provider) (token : ConnectionToken) :
    Admitted config gate (provider.closeAndDrain config token) := by
  unfold RemoteRelayProvider.closeAndDrain
  split
  · exact h
  · rename_i attachment hget
    split
    · exact h
    · exact h.setLocal hget rfl (fun _ => rfl) (fun _ => rfl) (.inl rfl) rfl

theorem calls_closeAndDrain {token : ConnectionToken} :
    (provider.closeAndDrain config token).calls = provider.calls := by
  unfold RemoteRelayProvider.closeAndDrain
  split
  · rfl
  · split <;> rfl

theorem closed_closeAndDrain (h : Admitted config gate provider) {token : ConnectionToken}
    {attachment : LocalAttachment} (hget : provider.locals.get? token = some attachment) :
    ∃ next, (provider.closeAndDrain config token).locals.get? token = some next ∧
      next.closed = true ∧ next.capacityHeld = attachment.capacityHeld := by
  unfold RemoteRelayProvider.closeAndDrain
  rw [hget]
  dsimp only
  split
  · rename_i hsome
    exact ⟨attachment, hget, h.closing token attachment hget hsome, rfl⟩
  · unfold RemoteRelayProvider.setLocal
    rw [OrderedMap.get?_set, if_pos rfl]
    exact ⟨_, rfl, rfl, rfl⟩

theorem endClose (h : Admitted config gate provider) {token : ConnectionToken}
    {attachment next : LocalAttachment} (hget : provider.locals.get? token = some attachment)
    (hkey : next.key = attachment.key) (hclosed : next.closed = attachment.closed)
    (hheld : next.capacityHeld = attachment.capacityHeld) (fulfilled : Bool) :
    Admitted config gate (provider.endClose token next fulfilled) := by
  have hlocal : Admitted config gate (provider.setLocal token
      { next with closeTransaction := none, closeFulfilled := fulfilled }) :=
    h.setLocal hget hkey (fun hclose => hclosed.trans hclose) nofun (.inl hheld)
      (by rw [show LocalAttachment.capacityHeld _ = attachment.capacityHeld from hheld])
  exact hlocal.hear token fulfilled

theorem settleClose (h : Admitted config gate provider) {token : ConnectionToken}
    {attachment : LocalAttachment} (hget : provider.locals.get? token = some attachment)
    (hclosed : attachment.closed = true) (started failed : List CloseOperation) :
    Admitted config gate (provider.settleClose token attachment started failed) := by
  unfold RemoteRelayProvider.settleClose
  dsimp only
  split
  · have hkey : (complete attachment (started.filter fun operation =>
        decide (operation ∉ failed))).key = attachment.key := rfl
    exact h.endClose hget hkey rfl rfl false
  · have hlocal : Admitted config gate ((provider.release attachment.capacityHeld).setLocal token
        { complete attachment (started.filter fun operation => decide (operation ∉ failed)) with
          capacityHeld := false, closeTransaction := some .publishing }) :=
      h.setLocal hget rfl (fun _ => hclosed) (fun _ => hclosed) (.inr ⟨rfl, hclosed⟩) rfl
    have hset : ((provider.release attachment.capacityHeld).setLocal token
        { complete attachment (started.filter fun operation => decide (operation ∉ failed)) with
          capacityHeld := false, closeTransaction := some .publishing }).locals.get? token =
        some { complete attachment (started.filter fun operation => decide (operation ∉ failed)) with
          capacityHeld := false, closeTransaction := some .publishing } := by
      unfold RemoteRelayProvider.setLocal
      rw [OrderedMap.get?_set, if_pos rfl]
    split
    · rename_i hkey
      exact hlocal.detach hkey hset rfl
    · exact hlocal

theorem shared (h : Admitted config gate provider) (shared : SharedState) :
    Admitted config gate { provider with shared } :=
  { h with }

theorem carryOut (h : Admitted config gate provider) (attachment : LocalAttachment)
    (token : ConnectionToken) (operation : CloseOperation) :
    Admitted config gate (provider.carryOut attachment token operation) := by
  cases operation with
  | unregister => exact h.shared _
  | activity => exact h.shared _
  | writer => exact h
  | socket => exact h

theorem locals_carryOut (attachment : LocalAttachment) (token : ConnectionToken)
    (operation : CloseOperation) :
    (provider.carryOut attachment token operation).locals = provider.locals := by
  cases operation <;> rfl

theorem stepClose (h : Admitted config gate provider) {token : ConnectionToken}
    {attachment : LocalAttachment} (hget : provider.locals.get? token = some attachment) {op : Op}
    {next : RemoteRelayProvider} (hstep : provider.stepClose token attachment op = some next) :
    Admitted config gate next := by
  have hclosed : attachment.closeTransaction.isSome = true → attachment.closed = true :=
    h.closing token attachment hget
  unfold RemoteRelayProvider.stepClose at hstep
  split at hstep
  · split at hstep
    · rename_i operation _ started waiting failed carried htransaction
      split at hstep
      · cases hstep
        have hkept : (provider.carryOut attachment token operation).locals.get? token =
            some attachment := by
          rw [locals_carryOut]
          exact hget
        exact (h.carryOut attachment token operation).setLocal hkept rfl id
          (fun _ => hclosed (by rw [htransaction]; rfl)) (.inl rfl) rfl
      · cases hstep
    · cases hstep
  · split at hstep
    · rename_i htransaction
      split at hstep
      · cases hstep
        exact h.setLocal hget rfl id (fun _ => hclosed (by rw [htransaction]; rfl)) (.inl rfl) rfl
      · cases hstep
    · cases hstep
  · split at hstep
    · rename_i htransaction
      cases hstep
      exact h.settleClose hget (hclosed (by rw [htransaction]; rfl)) _ _
    · cases hstep
  · split at hstep
    · cases hstep
      exact h.endClose hget rfl rfl rfl _
    · cases hstep
  · cases hstep

theorem beginAttach (h : Admitted config gate provider) (routeId attachmentId : String)
    (mobile hasClose granted : Bool) :
    Admitted config gate (provider.beginAttach config routeId attachmentId mobile hasClose granted) := by
  unfold RemoteRelayProvider.beginAttach
  dsimp only
  split
  · exact h
  · split
    · refine { h with balance := ?_ }
      have hbalance := h.balance
      unfold heldByAttachments heldByCalls at hbalance ⊢
      dsimp only
      omega
    · rename_i hfree
      rw [Bool.or_eq_true, not_or, decide_eq_true_eq, Bool.and_eq_true, not_and] at hfree
      obtain ⟨hreserved, hroom⟩ := hfree
      have hnew : provider.calls.get? provider.next = none := by
        cases hget : provider.calls.get? provider.next with
        | none => rfl
        | some call => exact absurd (h.called _ call hget) (Nat.lt_irrefl _)
      have hcalls : ∀ (added : AttachCall) id call,
          (provider.calls.set provider.next added).get? id = some call →
            id = provider.next ∧ call = added ∨ provider.calls.get? id = some call := by
        intro added id call hcall
        exact (OrderedMap.of_get?_set hcall).imp_right And.right
      have hactive : ∀ id call, provider.calls.get? id = some call → call.phase.isActive = true →
          call.key ≠ attachmentKey routeId attachmentId := by
        intro id call hcall hcallActive heq
        exact hreserved (heq ▸ h.reserved id call hcall hcallActive)
      refine { h with
        drawn := ?_, called := ?_, reserved := ?_, apart := ?_, owned := ?_, replaced := ?_
        failed := ?_, vacant := ?_, balance := ?_, bounded := ?_, taken := ?_ }
      · intro token attachment hlocal
        exact Nat.lt_succ_of_lt (h.drawn token attachment hlocal)
      · intro id call hcall
        rcases hcalls _ id call hcall with ⟨rfl, -⟩ | hold
        · exact Nat.lt_succ_self _
        · exact Nat.lt_succ_of_lt (h.called id call hold)
      · intro id call hcall hcallActive
        rcases hcalls _ id call hcall with ⟨rfl, rfl⟩ | hold
        · exact List.mem_cons_self
        · exact List.mem_cons_of_mem _ (h.reserved id call hold hcallActive)
      · intro id call other found hcall hfound hcallActive hfoundActive heq
        rcases hcalls _ id call hcall with ⟨rfl, rfl⟩ | hold
        · rcases hcalls _ other found hfound with ⟨rfl, rfl⟩ | hkept
          · rfl
          · exact absurd heq.symm (hactive other found hkept hfoundActive)
        · rcases hcalls _ other found hfound with ⟨rfl, rfl⟩ | hkept
          · exact absurd heq (hactive id call hold hcallActive)
          · exact h.apart id call other found hold hkept hcallActive hfoundActive heq
      · intro id call token hcall htoken
        rcases hcalls _ id call hcall with ⟨rfl, rfl⟩ | hold
        · cases htoken
        · exact h.owned id call token hold htoken
      · intro id call existing hcall hexisting
        rcases hcalls _ id call hcall with ⟨rfl, rfl⟩ | hold
        · cases hexisting
        · exact h.replaced id call existing hold hexisting
      · intro id call token hcall htoken
        rcases hcalls _ id call hcall with ⟨rfl, rfl⟩ | hold
        · cases htoken
        · exact h.failed id call token hold htoken
      · intro id call hcall hacquires
        rcases hcalls _ id call hcall with ⟨rfl, rfl⟩ | hold
        · have hvacant := (Bool.and_eq_true_iff.mp hacquires).1
          apply OrderedMap.get?_eq_none_of_notMem
          intro hmem
          have hhas : provider.attachments.has (attachmentKey routeId attachmentId) = true :=
            OrderedMap.has_iff.mpr hmem
          rw [hhas] at hvacant
          cases hvacant
        · exact h.vacant id call hold hacquires
      · have hcount := countP_values_insert hnew ⟨routeId, attachmentId, mobile, hasClose,
          .authorizing (!provider.attachments.has (attachmentKey routeId attachmentId) &&
            config.capacity)⟩ (·.phase.holdsCapacity)
        have hbalance := h.balance
        unfold heldByAttachments heldByCalls at hbalance ⊢
        dsimp only at hcount ⊢
        rw [hcount]
        change _ = _ + (_ + (!provider.attachments.has (attachmentKey routeId attachmentId) &&
          config.capacity).toNat)
        omega
      · by_cases hmem : attachmentKey routeId attachmentId ∈ provider.attachments.keys
        · refine (Finset.card_le_card ?_).trans h.bounded
          intro key hkey
          unfold occupied at hkey ⊢
          rw [List.mem_toFinset, List.mem_append] at hkey ⊢
          rcases hkey with hattached | hlist
          · exact .inl hattached
          · rcases List.mem_cons.mp hlist with rfl | hold
            · exact .inl hmem
            · exact .inr hold
        · have hless := hroom (by
            rw [Bool.not_eq_true', ← Bool.not_eq_true, OrderedMap.has_iff]
            exact hmem)
          rw [decide_eq_true_eq, Nat.not_le] at hless
          unfold occupied
          refine (List.toFinset_card_le _).trans ?_
          rw [List.length_append, List.length_cons]
          unfold OrderedMap.keys
          unfold OrderedMap.size at hless
          dsimp only
          rw [List.length_map]
          omega
      · intro hgate id call hcall hsome
        rcases hcalls _ id call hcall with ⟨rfl, rfl⟩ | hold
        · cases hsome
        · exact h.taken hgate id call hold hsome

theorem locals_next (h : Admitted config gate provider) :
    provider.locals.get? provider.next = none := by
  cases hlocal : provider.locals.get? provider.next with
  | none => rfl
  | some attachment => exact absurd (h.drawn _ attachment hlocal) (Nat.lt_irrefl _)

section Publish

variable {id : CallId} {call : AttachCall} {capacityHeld : Bool}

theorem of_attachments_publish {key : String} {token : ConnectionToken}
    (htoken : (provider.publish id call capacityHeld).attachments.get? key = some token) :
    key = call.key ∧ token = provider.next ∨
      key ≠ call.key ∧ provider.attachments.get? key = some token :=
  OrderedMap.of_get?_set htoken

theorem of_calls_publish {other : CallId} {found : AttachCall}
    (hfound : (provider.publish id call capacityHeld).calls.get? other = some found) :
    other = id ∧ found = { call with phase := .announcing provider.next } ∨
      other ≠ id ∧ provider.calls.get? other = some found :=
  OrderedMap.of_get?_set hfound

theorem locals_publish (h : Admitted config gate provider) {token : ConnectionToken}
    {attachment : LocalAttachment} (hlocal : provider.locals.get? token = some attachment) :
    (provider.publish id call capacityHeld).locals.get? token = some attachment :=
  (OrderedMap.get?_set _ _ _ _).trans
    ((if_neg (Nat.ne_of_lt (h.drawn token attachment hlocal))).trans hlocal)

theorem locals_publish_next : ∃ attachment,
    (provider.publish id call capacityHeld).locals.get? provider.next = some attachment ∧
      attachment.key = call.key ∧ attachment.capacityHeld = capacityHeld :=
  ⟨_, OrderedMap.get?_set_self _ _ _, rfl, rfl⟩

/-- Two active calls never name one key. -/
theorem key_ne (h : Admitted config gate provider) {other : CallId} {found : AttachCall}
    (hget : provider.calls.get? id = some call) (hactive : call.phase.isActive = true)
    (hfound : provider.calls.get? other = some found) (hwaits : found.phase.isActive = true)
    (hne : other ≠ id) : found.key ≠ call.key := by
  intro heq
  exact hne (h.apart other found id call hfound hget hwaits hactive heq)

theorem apart_publish (h : Admitted config gate provider)
    (hget : provider.calls.get? id = some call) (hactive : call.phase.isActive = true) :
    ∀ first found second last,
      (provider.publish id call capacityHeld).calls.get? first = some found →
      (provider.publish id call capacityHeld).calls.get? second = some last →
      found.phase.isActive = true → last.phase.isActive = true → found.key = last.key →
        first = second := by
  intro first found second last hfound hlast hfoundActive hlastActive heq
  rcases of_calls_publish hfound with ⟨rfl, rfl⟩ | ⟨hne, hold⟩
  · rcases of_calls_publish hlast with ⟨rfl, rfl⟩ | ⟨hother, hlate⟩
    · rfl
    · have hkey : last.key ≠ call.key := h.key_ne hget hactive hlate hlastActive hother
      exact absurd heq.symm hkey
  · rcases of_calls_publish hlast with ⟨rfl, rfl⟩ | ⟨-, hlate⟩
    · have hkey : found.key ≠ call.key := h.key_ne hget hactive hold hfoundActive hne
      exact absurd heq hkey
    · exact h.apart first found second last hold hlate hfoundActive hlastActive heq

theorem held_publish (h : Admitted config gate provider)
    (hfree : ∀ token attachment, provider.attachments.get? call.key = some token →
      provider.locals.get? token = some attachment → attachment.capacityHeld = false) :
    ∀ token attachment,
      (provider.publish id call capacityHeld).locals.get? token = some attachment →
      attachment.capacityHeld = true →
        (provider.publish id call capacityHeld).attachments.get? attachment.key = some token := by
  intro token attachment hlocal hholds
  rcases OrderedMap.of_get?_set hlocal with ⟨rfl, rfl⟩ | ⟨-, hold⟩
  · exact OrderedMap.get?_set_self _ _ _
  · have hother := h.held token attachment hold hholds
    refine (OrderedMap.get?_set _ _ _ _).trans ((if_neg ?_).trans hother)
    intro heq
    have hnone := hfree token attachment (heq ▸ hother) hold
    exact absurd (hnone.symm.trans hholds) nofun

theorem replaced_publish (h : Admitted config gate provider)
    (hget : provider.calls.get? id = some call) (hactive : call.phase.isActive = true) :
    ∀ other found existing,
      (provider.publish id call capacityHeld).calls.get? other = some found →
      found.phase.replaces? = some existing →
        (∀ token, (provider.publish id call capacityHeld).attachments.get? found.key = some token →
          token = existing) ∧
          ∃ attachment,
            (provider.publish id call capacityHeld).locals.get? existing = some attachment ∧
              attachment.capacityHeld = false ∧ attachment.closed = true := by
  intro other found existing hfound hexisting
  rcases of_calls_publish hfound with ⟨rfl, rfl⟩ | ⟨hne, hold⟩
  · cases hexisting
  · obtain ⟨hsingle, attachment, hlocal, hstate⟩ := h.replaced other found existing hold hexisting
    refine ⟨?_, attachment, h.locals_publish hlocal, hstate⟩
    intro token htoken
    rcases of_attachments_publish htoken with ⟨heq, rfl⟩ | ⟨-, hkeyed⟩
    · have hwaits : found.phase.isActive = true := by
        cases hphase : found.phase with
        | replacing _ _ _ => rfl
        | _ => rw [hphase] at hexisting; cases hexisting
      exact absurd heq (h.key_ne hget hactive hold hwaits hne)
    · exact hsingle token hkeyed

theorem vacant_publish (h : Admitted config gate provider)
    (hget : provider.calls.get? id = some call) (hactive : call.phase.isActive = true) :
    ∀ other found, (provider.publish id call capacityHeld).calls.get? other = some found →
      found.phase.acquires = true →
        (provider.publish id call capacityHeld).attachments.get? found.key = none := by
  intro other found hfound hacquires
  rcases of_calls_publish hfound with ⟨rfl, rfl⟩ | ⟨hne, hold⟩
  · cases hacquires
  · have hwaits : found.phase.isActive = true := by
      cases hphase : found.phase with
      | authorizing _ => rfl
      | _ => rw [hphase] at hacquires; cases hacquires
    exact (OrderedMap.get?_set _ _ _ _).trans
      ((if_neg (h.key_ne hget hactive hold hwaits hne)).trans (h.vacant other found hold hacquires))

/-- The token moves from the call to its attachment. -/
theorem balance_publish (h : Admitted config gate provider)
    (hget : provider.calls.get? id = some call) :
    (provider.publish id call call.phase.holdsCapacity).heldByAttachments +
      (provider.publish id call call.phase.holdsCapacity).heldByCalls =
        provider.heldByAttachments + provider.heldByCalls := by
  have hcount := countP_values_replace hget { call with phase := .announcing provider.next }
    (·.phase.holdsCapacity)
  have hinsert := countP_values_insert h.locals_next
    { routeId := call.routeId, attachmentId := call.attachmentId, mobile := call.mobile
      closed := false, unregistered := false, writerDrained := false
      socketClosed := !call.hasClose, capacityHeld := call.phase.holdsCapacity
      activityReleased := false, closeTransaction := none, closeFulfilled := false }
    (·.capacityHeld)
  have hmoved : (AttachPhase.announcing provider.next).holdsCapacity = false := rfl
  unfold heldByAttachments heldByCalls
  unfold RemoteRelayProvider.publish RemoteRelayProvider.setPhase RemoteRelayProvider.setLocal
  dsimp only at hcount hinsert ⊢
  rw [hmoved, Bool.toNat_false] at hcount
  omega

theorem bounded_publish (h : Admitted config gate provider)
    (hreserved : call.key ∈ provider.attachmentReservations) :
    (provider.publish id call capacityHeld).occupied.card ≤ config.maxConnections := by
  refine (Finset.card_le_card ?_).trans h.bounded
  intro key hkey
  unfold occupied at hkey ⊢
  rw [List.mem_toFinset, List.mem_append] at hkey ⊢
  rcases hkey with hattached | hold
  · obtain ⟨token, htoken⟩ := OrderedMap.get?_of_mem_keys hattached
    rcases of_attachments_publish htoken with ⟨rfl, -⟩ | ⟨-, hkeyed⟩
    · exact .inr hreserved
    · exact .inl (OrderedMap.mem_keys_of_get? hkeyed)
  · exact .inr hold

theorem covered_publish (h : Admitted config gate provider) (hcovered : gate → capacityHeld = true) :
    gate → ∀ key token attachment,
      (provider.publish id call capacityHeld).attachments.get? key = some token →
      (provider.publish id call capacityHeld).locals.get? token = some attachment →
        attachment.closed = false → attachment.capacityHeld = true := by
  intro hgate key token attachment htoken hlocal hopen
  rcases of_attachments_publish htoken with ⟨rfl, rfl⟩ | ⟨-, hkeyed⟩
  · obtain ⟨added, hadded, -, hheld⟩ := locals_publish_next
    rw [hadded] at hlocal
    cases hlocal
    exact hheld.trans (hcovered hgate)
  · obtain ⟨earlier, hearlier, -⟩ := h.keyed key token hkeyed
    rw [h.locals_publish hearlier] at hlocal
    cases hlocal
    exact h.covered hgate key token _ hkeyed hearlier hopen

end Publish

theorem publish (h : Admitted config gate provider) {id : CallId} {call : AttachCall}
    (hget : provider.calls.get? id = some call) (hactive : call.phase.isActive = true)
    (hfree : ∀ token attachment, provider.attachments.get? call.key = some token →
      provider.locals.get? token = some attachment → attachment.capacityHeld = false)
    (hcovered : gate → call.phase.holdsCapacity = true) :
    Admitted config gate (provider.publish id call call.phase.holdsCapacity) := by
  have hreserved := h.reserved id call hget hactive
  refine {
    drawn := ?_, called := ?_, reserved := ?_, apart := h.apart_publish hget hactive, keyed := ?_
    held := h.held_publish hfree, owned := ?_, replaced := h.replaced_publish hget hactive
    failed := ?_, vacant := h.vacant_publish hget hactive, closing := ?_
    balance := h.balance.trans ?_, bounded := h.bounded_publish hreserved
    covered := h.covered_publish hcovered, taken := ?_ }
  · intro token attachment hlocal
    rcases OrderedMap.of_get?_set hlocal with ⟨rfl, -⟩ | ⟨-, hold⟩
    · exact Nat.lt_succ_self _
    · exact Nat.lt_succ_of_lt (h.drawn token attachment hold)
  · intro other found hfound
    rcases of_calls_publish hfound with ⟨rfl, -⟩ | ⟨-, hold⟩
    · exact Nat.lt_succ_of_lt (h.called _ call hget)
    · exact Nat.lt_succ_of_lt (h.called other found hold)
  · intro other found hfound hfoundActive
    rcases of_calls_publish hfound with ⟨rfl, rfl⟩ | ⟨-, hold⟩
    · exact hreserved
    · exact h.reserved other found hold hfoundActive
  · intro key token htoken
    rcases of_attachments_publish htoken with ⟨rfl, rfl⟩ | ⟨-, hold⟩
    · obtain ⟨added, hadded, hkey, -⟩ := locals_publish_next
      exact ⟨added, hadded, hkey⟩
    · obtain ⟨attachment, hlocal, heq⟩ := h.keyed key token hold
      exact ⟨attachment, h.locals_publish hlocal, heq⟩
  · intro other found token hfound htoken
    rcases of_calls_publish hfound with ⟨rfl, rfl⟩ | ⟨-, hold⟩
    · cases htoken
      obtain ⟨added, hadded, hkey, -⟩ := locals_publish_next
      exact ⟨added, hadded, hkey⟩
    · obtain ⟨attachment, hlocal, heq⟩ := h.owned other found token hold htoken
      exact ⟨attachment, h.locals_publish hlocal, heq⟩
  · intro other found token hfound htoken
    rcases of_calls_publish hfound with ⟨rfl, rfl⟩ | ⟨-, hold⟩
    · cases htoken
    · obtain ⟨attachment, hlocal, hclosed⟩ := h.failed other found token hold htoken
      exact ⟨attachment, h.locals_publish hlocal, hclosed⟩
  · intro token attachment hlocal hsome
    rcases OrderedMap.of_get?_set hlocal with ⟨rfl, rfl⟩ | ⟨-, hold⟩
    · cases hsome
    · exact h.closing token attachment hold hsome
  · have hbalance := h.balance_publish hget
    change _ = provider.released + _ + _
    omega
  · intro hgate other found hfound hsome
    rcases of_calls_publish hfound with ⟨rfl, rfl⟩ | ⟨-, hold⟩
    · cases hsome
    · exact h.taken hgate other found hold hsome

theorem rejectAttach (h : Admitted config gate provider) {id : CallId} {call : AttachCall}
    (hget : provider.calls.get? id = some call) (hactive : call.phase.isActive = true) :
    Admitted config gate (provider.rejectAttach id call call.phase.holdsCapacity) :=
  h.endCall hget hactive rfl rfl nofun nofun

theorem cleaning (h : Admitted config gate provider) {id : CallId} {call : AttachCall}
    {token : ConnectionToken} (hget : provider.calls.get? id = some call)
    (hphase : call.phase.Attaches token) :
    Admitted config gate
      ((provider.closeAndDrain config token).setPhase id call (.cleaning token none)) := by
  obtain ⟨attachment, hlocal, -⟩ := h.owned id call token hget hphase.attached
  obtain ⟨next, hnext, hclosed, -⟩ := h.closed_closeAndDrain hlocal
  refine (h.closeAndDrain token).setPhase (calls_closeAndDrain.symm ▸ hget) ?_
    (fun _ => hphase.active) ?_ nofun nofun rfl ?_
  · rw [hphase.holds]
    rfl
  · rintro _ ⟨⟩
    exact hphase.attached
  · rintro _ ⟨⟩
    exact ⟨next, hnext, hclosed⟩

theorem failAttach (h : Admitted config gate provider) {id : CallId} {call : AttachCall}
    {token : ConnectionToken} (hget : provider.calls.get? id = some call)
    (hphase : call.phase.Attaches token) :
    Admitted config gate (provider.failAttach config id call token) := by
  obtain ⟨attachment, hlocal, -⟩ := h.owned id call token hget hphase.attached
  unfold RemoteRelayProvider.failAttach
  split
  · exact h.cleaning hget hphase
  · rename_i hopen
    refine h.endCall hget hphase.active (by rw [hphase.holds]; rfl) rfl ?_ ?_
    · rintro _ ⟨⟩
      exact hphase.attached
    · rintro _ ⟨⟩
      refine ⟨attachment, hlocal, ?_⟩
      rw [hlocal, Option.any_some, Bool.not_eq_true', Bool.not_eq_false] at hopen
      exact hopen

theorem replaced_steps (h : Admitted config gate provider) {id : CallId} {call : AttachCall}
    {existing : ConnectionToken} {ended : Option Bool} {capacityHeld : Bool}
    (hget : provider.calls.get? id = some call)
    (hphase : call.phase = .replacing existing ended capacityHeld) (fulfilled aborted : Bool) :
    Admitted config gate (provider.replaced id call fulfilled capacityHeld aborted) := by
  have hactive : call.phase.isActive = true := by rw [hphase]; rfl
  have hholds : call.phase.holdsCapacity = capacityHeld := by rw [hphase]; rfl
  have hreplaces : call.phase.replaces? = some existing := by rw [hphase]; rfl
  unfold RemoteRelayProvider.replaced
  rw [← hholds]
  split
  · exact h.rejectAttach hget hactive
  · obtain ⟨hsingle, attachment, hlocal, hnone, -⟩ := h.replaced id call existing hget hreplaces
    refine h.publish hget hactive ?_ ?_
    · intro token found htoken hfound
      rw [hsingle token htoken, hlocal] at hfound
      cases hfound
      exact hnone
    · intro hgate
      exact h.taken hgate id call hget (by rw [hreplaces]; rfl)

end Admitted

/-- The attachment that a call replaces is there with its token, or the call is going to reject. -/
def hasToken (provider : RemoteRelayProvider) (key : String) (aborted : Bool) : Bool :=
  match provider.attachments.get? key with
  | none => aborted
  | some existing => (provider.locals.get? existing).all (·.capacityHeld)

/-- A call that has no token of its own is only authorized while the attachment that it replaces has
one. -/
def Clean (config : RelayConfig) (provider : RemoteRelayProvider) : Op → Prop
  | .authorized id accepted aborted => ∀ call, provider.calls.get? id = some call →
      call.phase = .authorizing false → config.capacity = true → accepted = true →
        provider.disposed = false → hasToken provider call.key aborted = true
  | _ => True

instance decidableClean (config : RelayConfig) (provider : RemoteRelayProvider) (op : Op) :
    Decidable (Clean config provider op) :=
  match op with
  | .authorized id accepted aborted =>
    inferInstanceAs (Decidable (∀ call ∈ provider.calls.get? id,
      call.phase = .authorizing false → config.capacity = true → accepted = true →
        provider.disposed = false → hasToken provider call.key aborted = true))
  | .attach .. => isTrue trivial
  | .replaced .. => isTrue trivial
  | .announced .. => isTrue trivial
  | .registers .. => isTrue trivial
  | .registered .. => isTrue trivial
  | .reauthorized .. => isTrue trivial
  | .records .. => isTrue trivial
  | .recorded .. => isTrue trivial
  | .published .. => isTrue trivial
  | .cleaned .. => isTrue trivial
  | .close .. => isTrue trivial
  | .carriesOut .. => isTrue trivial
  | .settled .. => isTrue trivial
  | .drained .. => isTrue trivial
  | .closePublished .. => isTrue trivial
  | .touch .. => isTrue trivial
  | .touches .. => isTrue trivial
  | .touched .. => isTrue trivial
  | .dispose => isTrue trivial

namespace Admitted

variable {config : RelayConfig} {gate : Prop} {provider : RemoteRelayProvider}

theorem setLocal_closeAndDrain {token : ConnectionToken} {attachment : LocalAttachment} :
    (provider.setLocal token attachment).closeAndDrain config token =
      provider.setLocal token (if attachment.closeTransaction.isSome then attachment
        else { attachment with
          closed := true
          closeTransaction := some (.draining (closeOperations config attachment)
            (closeOperations config attachment) [] []) }) := by
  have hget : (provider.setLocal token attachment).locals.get? token = some attachment := by
    unfold RemoteRelayProvider.setLocal
    rw [OrderedMap.get?_set, if_pos rfl]
  unfold RemoteRelayProvider.closeAndDrain
  rw [hget]
  dsimp only
  split
  · rfl
  · unfold RemoteRelayProvider.setLocal
    dsimp only
    rw [OrderedMap.set_set]

theorem takeOver (h : Admitted config gate provider) {id : CallId} {call : AttachCall}
    {existing : ConnectionToken} {attachment : LocalAttachment}
    (hget : provider.calls.get? id = some call) (hphase : call.phase = .authorizing false)
    (hexisting : provider.attachments.get? call.key = some existing)
    (hlocal : provider.locals.get? existing = some attachment)
    (hheld : gate → attachment.capacityHeld = true) :
    Admitted config gate (((provider.setLocal existing
      { attachment with capacityHeld := false }).closeAndDrain config existing).setPhase id call
        (.replacing existing none (false || attachment.capacityHeld))) := by
  have hactive : call.phase.isActive = true := by rw [hphase]; rfl
  have hholds : call.phase.holdsCapacity = false := by rw [hphase]; rfl
  rw [setLocal_closeAndDrain]
  obtain ⟨next, hnext⟩ : ∃ next : LocalAttachment, next = if
      ({ attachment with capacityHeld := false } : LocalAttachment).closeTransaction.isSome then
        { attachment with capacityHeld := false }
      else { attachment with
        capacityHeld := false
        closed := true
        closeTransaction := some (.draining
          (closeOperations config { attachment with capacityHeld := false })
          (closeOperations config { attachment with capacityHeld := false }) [] []) } := ⟨_, rfl⟩
  rw [← hnext]
  have hnextState : next.key = attachment.key ∧ next.capacityHeld = false ∧ next.closed = true := by
    split at hnext
    · rename_i hsome
      subst hnext
      exact ⟨rfl, rfl, h.closing existing attachment hlocal hsome⟩
    · subst hnext
      exact ⟨rfl, rfl, rfl⟩
  obtain ⟨hkey, hnone, hclosed⟩ := hnextState
  have hreleased : Admitted config gate ((provider.release attachment.capacityHeld).setLocal existing next) :=
    h.setLocal hlocal hkey (fun _ => hclosed) (fun _ => hclosed) (.inr ⟨hnone, hclosed⟩)
      (by rw [hnone]; rfl)
  refine hreleased.setPhase hget ?_ (fun _ => hactive) nofun ?_ ?_ rfl nofun
  · rw [hholds]
    rfl
  · rintro _ ⟨⟩
    refine ⟨?_, next, ?_, hnone, hclosed⟩
    · intro token htoken
      exact Option.some.inj (htoken.symm.trans hexisting)
    · unfold RemoteRelayProvider.setLocal
      rw [OrderedMap.get?_set, if_pos rfl]
  · intro hgate _
    exact hheld hgate

theorem authorized_steps (h : Admitted config gate provider) {id : CallId} {call : AttachCall}
    {capacityHeld : Bool} (hget : provider.calls.get? id = some call)
    (hphase : call.phase = .authorizing capacityHeld) (accepted aborted : Bool)
    (hgate : gate → config.capacity = true)
    (hclean : gate → Clean config provider (.authorized id accepted aborted)) :
    Admitted config gate (provider.authorized config id call capacityHeld accepted aborted) := by
  have hactive : call.phase.isActive = true := by rw [hphase]; rfl
  have hholds : call.phase.holdsCapacity = capacityHeld := by rw [hphase]; rfl
  have hacquires : call.phase.acquires = capacityHeld := by rw [hphase]; rfl
  unfold RemoteRelayProvider.authorized
  split
  · rw [← hholds]
    exact h.rejectAttach hget hactive
  · rename_i hopen
    rw [Bool.or_eq_true, not_or, Bool.not_eq_true, Bool.not_eq_true', Bool.not_eq_false] at hopen
    have hfound : ∀ existing, provider.attachments.get? call.key = some existing →
        capacityHeld = false := by
      intro existing hexisting
      rw [Bool.eq_false_iff]
      intro hcapacity
      rw [h.vacant id call hget (hacquires.trans hcapacity)] at hexisting
      cases hexisting
    split
    · rename_i hnone
      split
      · rw [← hholds]
        exact h.rejectAttach hget hactive
      · rename_i hgoes
        rw [← hholds]
        refine h.publish hget hactive ?_ ?_
        · intro token attachment htoken
          rw [hnone] at htoken
          cases htoken
        · intro hgate'
          rw [hholds, ← Bool.not_eq_false]
          intro hcapacity
          have haborted := hclean hgate' call hget (hcapacity ▸ hphase) (hgate hgate') hopen.2
            hopen.1
          unfold hasToken at haborted
          rw [hnone] at haborted
          exact hgoes haborted
    · rename_i existing hexisting
      have hcapacity := hfound existing hexisting
      subst hcapacity
      split
      · exact h
      · rename_i attachment hlocal
        refine h.takeOver hget hphase hexisting hlocal fun hgate' => ?_
        have hholding := hclean hgate' call hget hphase (hgate hgate') hopen.2 hopen.1
        unfold hasToken at hholding
        rw [hexisting] at hholding
        dsimp only at hholding
        rw [hlocal] at hholding
        exact hholding

theorem goOn (h : Admitted config gate provider) {id : CallId} {call : AttachCall}
    {token : ConnectionToken} {phase : AttachPhase} (hget : provider.calls.get? id = some call)
    (hphase : call.phase.Attaches token) (hnext : phase.Attaches token)
    (hreplaces : phase.replaces? = none) (hacquires : phase.acquires = false)
    (hfailed : phase.failed? = none) : Admitted config gate (provider.setPhase id call phase) := by
  refine h.setPhase hget (by rw [hnext.holds, hphase.holds]) (fun _ => hphase.active) ?_ ?_ ?_
    hacquires ?_
  · intro other hother
    rw [← hnext.attached.symm.trans hother]
    exact hphase.attached
  · exact fun existing hexisting => absurd (hreplaces.symm.trans hexisting) nofun
  · exact fun _ hsome => by rw [hreplaces] at hsome; cases hsome
  · exact fun other hother => absurd (hfailed.symm.trans hother) nofun

theorem reauthorized_steps (h : Admitted config gate provider) {id : CallId} {call : AttachCall}
    {token : ConnectionToken} (hget : provider.calls.get? id = some call)
    (hphase : call.phase = .reauthorizing token) (answer : Option Bool) :
    Admitted config gate (provider.reauthorized config id call token answer) := by
  have hattaches : call.phase.Attaches token := hphase ▸ ⟨rfl, rfl, rfl⟩
  unfold RemoteRelayProvider.reauthorized
  split
  · exact h.failAttach hget hattaches
  · split
    · exact h.cleaning hget hattaches
    · split
      · exact h.goOn hget hattaches ⟨rfl, rfl, rfl⟩ rfl rfl rfl
      · exact h.goOn hget hattaches ⟨rfl, rfl, rfl⟩ rfl rfl rfl

theorem stepCall (h : Admitted config gate provider) {id : CallId} {call : AttachCall}
    (hget : provider.calls.get? id = some call) {op : Op} (hcall : op.call? = some id)
    (hgate : gate → config.capacity = true) (hclean : gate → Clean config provider op)
    {next : RemoteRelayProvider}
    (hstep : provider.stepCall config id call op = some next) : Admitted config gate next := by
  unfold RemoteRelayProvider.stepCall at hstep
  split at hstep
  · cases hcall
    split at hstep
    · rename_i hphase
      cases hstep
      exact h.authorized_steps hget hphase _ _ hgate hclean
    · cases hstep
  · split at hstep
    · rename_i hphase
      cases hstep
      exact h.replaced_steps hget hphase _ _
    · cases hstep
  · split at hstep
    · rename_i token hphase
      have hattaches : call.phase.Attaches token := hphase ▸ ⟨rfl, rfl, rfl⟩
      cases hstep
      split
      · exact h.goOn hget hattaches ⟨rfl, rfl, rfl⟩ rfl rfl rfl
      · exact h.failAttach hget hattaches
    · cases hstep
  · split at hstep
    · rename_i token hphase
      have hattaches : call.phase.Attaches token := hphase ▸ ⟨rfl, rfl, rfl⟩
      obtain ⟨attachment, -, rfl⟩ := Option.map_eq_some_iff.mp hstep
      exact (h.shared _).goOn hget hattaches ⟨rfl, rfl, rfl⟩ rfl rfl rfl
    · cases hstep
  · split at hstep
    · rename_i token applied hphase
      have hattaches : call.phase.Attaches token := hphase ▸ ⟨rfl, rfl, rfl⟩
      split at hstep
      · split at hstep
        · cases hstep
          exact h.goOn hget hattaches ⟨rfl, rfl, rfl⟩ rfl rfl rfl
        · cases hstep
      · cases hstep
        exact h.failAttach hget hattaches
    · cases hstep
  · split at hstep
    · rename_i hphase
      cases hstep
      exact h.reauthorized_steps hget hphase _
    · cases hstep
  · split at hstep
    · rename_i token hphase
      have hattaches : call.phase.Attaches token := hphase ▸ ⟨rfl, rfl, rfl⟩
      cases hstep
      exact (h.shared _).goOn hget hattaches ⟨rfl, rfl, rfl⟩ rfl rfl rfl
    · cases hstep
  · split at hstep
    · rename_i token applied hphase
      have hattaches : call.phase.Attaches token := hphase ▸ ⟨rfl, rfl, rfl⟩
      split at hstep
      · split at hstep
        · cases hstep
          exact h.goOn hget hattaches ⟨rfl, rfl, rfl⟩ rfl rfl rfl
        · cases hstep
      · cases hstep
        exact h.failAttach hget hattaches
    · cases hstep
  · split at hstep
    · rename_i token hphase
      have hattaches : call.phase.Attaches token := hphase ▸ ⟨rfl, rfl, rfl⟩
      cases hstep
      split
      · refine h.endCall hget hattaches.active (by rw [hattaches.holds]; rfl) rfl ?_ nofun
        rintro _ ⟨⟩
        exact hattaches.attached
      · exact h.failAttach hget hattaches
    · cases hstep
  · split at hstep
    · rename_i token ended hphase
      have hattaches : call.phase.Attaches token := hphase ▸ ⟨rfl, rfl, rfl⟩
      have hfailed : call.phase.failed? = some token := by rw [hphase]; rfl
      cases hstep
      refine h.endCall hget hattaches.active (by rw [hattaches.holds]; rfl) rfl ?_ ?_
      · rintro _ ⟨⟩
        exact hattaches.attached
      · rintro _ ⟨⟩
        exact h.failed id call token hget hfailed
    · cases hstep
  · cases hstep

theorem step (h : Admitted config gate provider) {op : Op} (hgate : gate → config.capacity = true)
    (hclean : gate → Clean config provider op)
    {next : RemoteRelayProvider} (hstep : RemoteRelayProvider.step config provider op = some next) :
    Admitted config gate next := by
  unfold RemoteRelayProvider.step at hstep
  split at hstep
  · cases hstep
    exact h.beginAttach _ _ _ _ _
  · split at hstep
    · cases hstep
      exact h.closeAndDrain _
    · cases hstep
  · split at hstep
    · cases hstep
      exact { h with }
    · cases hstep
  · split at hstep
    · cases hstep
      exact h.shared _
    · cases hstep
  · split at hstep
    · cases hstep
      exact { h with }
    · cases hstep
  · cases hstep
    exact { h with }
  · split at hstep
    · rename_i id hcall
      obtain ⟨call, hget, hnext⟩ := Option.bind_eq_some_iff.mp hstep
      exact h.stepCall hget hcall hgate hclean hnext
    · obtain ⟨token, -, hbind⟩ := Option.bind_eq_some_iff.mp hstep
      obtain ⟨attachment, hget, hnext⟩ := Option.bind_eq_some_iff.mp hbind
      exact h.stepClose hget hnext

end Admitted

/-- In a run where each attach without a token of its own takes one over, the open attachments of the
table have theirs, the gate's count is exact, a token that is held is in reach of a close, and the keys
stay within the limit. -/
theorem relay_admission {config : RelayConfig} {ops : List Op} {provider : RemoteRelayProvider}
    (hrun : run (RemoteRelayProvider.step config) .fresh ops = some provider)
    (hclean : Along (RemoteRelayProvider.step config) (Clean config) .fresh ops) :
    (config.capacity = true → ∀ key token, provider.attachments.get? key = some token →
      ∃ attachment, provider.locals.get? token = some attachment ∧
        (attachment.closed = false → attachment.capacityHeld = true)) ∧
    provider.acquired = provider.released + provider.heldByAttachments + provider.heldByCalls ∧
    (∀ token attachment, provider.locals.get? token = some attachment →
      attachment.capacityHeld = true → provider.attachments.get? attachment.key = some token) ∧
    (∀ id call token, provider.calls.get? id = some call → call.phase = .rejected (some token) →
      ∃ attachment, provider.locals.get? token = some attachment ∧ attachment.closed = true) ∧
    provider.occupied.card ≤ config.maxConnections := by
  have h : Admitted config (config.capacity = true) provider :=
    run_invariant_along (Admitted config (config.capacity = true))
      (fun _ _ _ hs hguard hstep => hs.step id (fun _ => hguard) hstep) hrun hclean
      (fresh_admitted config _)
  refine ⟨?_, h.balance, h.held, ?_, h.bounded⟩
  · intro hgate key token htoken
    obtain ⟨attachment, hlocal, -⟩ := h.keyed key token htoken
    exact ⟨attachment, hlocal, fun hopen => h.covered hgate key token attachment htoken hlocal hopen⟩
  · intro id call token hcall hphase
    exact h.failed id call token hcall (by rw [hphase]; rfl)

section Runs

def gated : RelayConfig := ⟨4, true, true⟩

def attaching (id : CallId) : List Op :=
  [.attach "route" "desktop" false false true, .authorized id true false, .announced id true,
    .registers id, .registered id true, .reauthorized id (some true), .published id true]

def closing (token : ConnectionToken) : List Op :=
  [.close token, .carriesOut token .unregister, .settled token .unregister true,
    .settled token .writer true, .drained token, .closePublished token true]

def replacingOps : List Op :=
  attaching 0 ++ [.attach "route" "desktop" false false true, .authorized 2 true false] ++
    (closing 1).drop 1 ++ [.replaced 2 false]

theorem relay_admission_replacing : ∃ provider,
    run (RemoteRelayProvider.step gated) .fresh replacingOps = some provider ∧
      provider.acquired = provider.released + provider.heldByAttachments + provider.heldByCalls ∧
        provider.occupied.card ≤ 4 := by
  have hsome : (run (RemoteRelayProvider.step gated) .fresh replacingOps).isSome = true := by
    decide +kernel
  obtain ⟨provider, hrun⟩ := Option.isSome_iff_exists.mp hsome
  have hclean : Along (RemoteRelayProvider.step gated) (Clean gated) .fresh replacingOps := by
    decide +kernel
  obtain ⟨-, hbalance, -, -, hbounded⟩ := relay_admission hrun hclean
  exact ⟨provider, hrun, hbalance, hbounded⟩

/-- The first attachment is closed while the second attach waits for its authorization. -/
def lateOps : List Op :=
  attaching 0 ++ [.attach "route" "desktop" false false true] ++ closing 1 ++
    [.authorized 2 true false]

theorem late_attachment_holds_no_token :
    (run (RemoteRelayProvider.step gated) .fresh lateOps).map (fun provider =>
        (provider.attachments.get? (attachmentKey "route" "desktop"), provider.acquired,
          provider.released, (provider.locals.get? 3).map fun attachment =>
            (attachment.closed, attachment.capacityHeld))) =
      some (some 3, 1, 1, some (false, false)) := by
  decide +kernel

end Runs

end Harness.RemoteAccess.Relay
