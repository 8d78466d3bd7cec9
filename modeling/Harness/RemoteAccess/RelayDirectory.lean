import Harness.RemoteAccess.RelayAdmission

namespace Harness.RemoteAccess.Relay

open Harness.Foundation
open RemoteRelayProvider

def LocalAttachment.IsSwept (config : RelayConfig) (attachment : LocalAttachment) : Prop :=
  attachment.unregistered = true ∧
    (attachment.mobile = true → config.pairingActivity = true → attachment.activityReleased = true)

structure Closes (config : RelayConfig) (shared : SharedState) (token : ConnectionToken)
    (attachment : LocalAttachment) : Prop where
  unregistered : attachment.unregistered = true → token ∈ shared.unregistered
  released : attachment.activityReleased = true → token ∈ shared.leaseReleased
  draining : ∀ started waiting failed carried,
    attachment.closeTransaction = some (.draining started waiting failed carried) →
      (.unregister ∈ carried → token ∈ shared.unregistered) ∧
      (.activity ∈ carried → token ∈ shared.leaseReleased) ∧
      (∀ operation ∈ started, operation = .unregister ∨ operation = .activity →
        operation ∈ waiting ∨ operation ∈ failed ∨ operation ∈ carried) ∧
      (attachment.unregistered = false → .unregister ∈ started) ∧
      (attachment.mobile = true → config.pairingActivity = true →
        attachment.activityReleased = false → .activity ∈ started)
  publishing : attachment.closeTransaction = some .publishing → attachment.IsSwept config
  fulfilled : attachment.closeFulfilled = true → attachment.IsSwept config

structure Sweeps (config : RelayConfig) (attachment : LocalAttachment) : Prop where
  kept : ∀ started waiting failed carried,
    attachment.closeTransaction = some (.draining started waiting failed carried) →
      .unregister ∉ failed ∧ .activity ∉ failed
  swept : attachment.closed = true → attachment.closeTransaction = none → attachment.IsSwept config

namespace RemoteRelayProvider

def isResolved (provider : RemoteRelayProvider) (token : ConnectionToken) : Bool :=
  provider.calls.values.any fun call => decide (call.phase = .resolved token)

theorem isResolved_iff {provider : RemoteRelayProvider} {token : ConnectionToken} :
    provider.isResolved token = true ↔
      ∃ id call, provider.calls.get? id = some call ∧ call.phase = .resolved token := by
  unfold isResolved
  rw [List.any_eq_true]
  constructor
  · rintro ⟨call, hmem, hphase⟩
    obtain ⟨id, hget⟩ := OrderedMap.mem_values_iff.mp hmem
    exact ⟨id, call, hget, of_decide_eq_true hphase⟩
  · rintro ⟨id, call, hget, hphase⟩
    exact ⟨call, OrderedMap.mem_values_iff.mpr ⟨id, hget⟩, decide_eq_true hphase⟩

/-- An attach call, a close or a record of activity of the attachment is on its way. -/
def InFlight (provider : RemoteRelayProvider) (token : ConnectionToken) : Prop :=
  (∃ id call, provider.calls.get? id = some call ∧ call.phase.attached? = some token ∧
    call.phase.isActive = true) ∨
  (∃ attachment, provider.locals.get? token = some attachment ∧
    attachment.closeTransaction.isSome = true) ∨
  token ∈ provider.touching

/-- Its attach call has rejected, or its close has completed without an error. -/
def Ended (provider : RemoteRelayProvider) (token : ConnectionToken) : Prop :=
  (∃ id call, provider.calls.get? id = some call ∧ call.phase = .rejected (some token)) ∨
  (∃ attachment, provider.locals.get? token = some attachment ∧ attachment.closed = true ∧
    attachment.closeFulfilled = true)

/-- No shared entry or lease is written after the close has removed it, and no removal is refused
while the attach call has not returned its attachment. -/
def Tidy (provider : RemoteRelayProvider) : Op → Prop
  | .registers id => ∀ call, provider.calls.get? id = some call →
      ∀ token ∈ call.phase.attached?, token ∉ provider.shared.unregistered
  | .records id => ∀ call, provider.calls.get? id = some call →
      ∀ token ∈ call.phase.attached?, token ∉ provider.shared.leaseReleased
  | .touches token => token ∉ provider.shared.leaseReleased
  | .settled token operation fulfilled => fulfilled = false →
      operation = .unregister ∨ operation = .activity → provider.isResolved token = true
  | _ => True

end RemoteRelayProvider

structure Hygienic (config : RelayConfig) (provider : RemoteRelayProvider) : Prop where
  sole : ∀ id call other found token, provider.calls.get? id = some call →
    provider.calls.get? other = some found → call.phase.attached? = some token →
      found.phase.attached? = some token → id = other
  directory : ∀ key token, provider.shared.directory.get? key = some token →
    token ∉ provider.shared.unregistered ∧ ∃ attachment,
      provider.locals.get? token = some attachment ∧
        key = (attachment.routeId, attachment.attachmentId)
  leases : ∀ token ∈ provider.shared.leases, token ∉ provider.shared.leaseReleased ∧
    ∃ attachment, provider.locals.get? token = some attachment ∧ attachment.mobile = true ∧
      config.pairingActivity = true
  touching : ∀ token ∈ provider.touching, ∃ attachment,
    provider.locals.get? token = some attachment ∧ attachment.mobile = true ∧
      config.pairingActivity = true
  recording : ∀ id call token applied, provider.calls.get? id = some call →
    call.phase = .recording token applied → ∃ attachment,
      provider.locals.get? token = some attachment ∧ attachment.mobile = true ∧
        config.pairingActivity = true
  closes : ∀ token attachment, provider.locals.get? token = some attachment →
    Closes config provider.shared token attachment
  sweeps : ∀ token attachment, provider.locals.get? token = some attachment →
    provider.isResolved token = false → Sweeps config attachment

namespace Closes

variable {config : RelayConfig} {shared next : SharedState} {token : ConnectionToken}
  {attachment : LocalAttachment}

theorem mono (h : Closes config shared token attachment)
    (hunregistered : shared.unregistered ⊆ next.unregistered)
    (hreleased : shared.leaseReleased ⊆ next.leaseReleased) :
    Closes config next token attachment where
  unregistered := fun heq => hunregistered (h.unregistered heq)
  released := fun heq => hreleased (h.released heq)
  draining := by
    intro started waiting failed carried htransaction
    obtain ⟨hfirst, hsecond, hrest⟩ := h.draining started waiting failed carried htransaction
    exact ⟨fun hmem => hunregistered (hfirst hmem), fun hmem => hreleased (hsecond hmem), hrest⟩
  publishing := h.publishing
  fulfilled := h.fulfilled

theorem begin (h : Closes config shared token attachment) (closed : Bool) :
    Closes config shared token { attachment with
      closed
      closeTransaction := some (.draining (closeOperations config attachment)
        (closeOperations config attachment) [] []) } where
  unregistered := h.unregistered
  released := h.released
  draining := by
    rintro started waiting failed carried ⟨⟩
    refine ⟨nofun, nofun, fun operation hmem _ => .inl hmem, ?_, ?_⟩
    · intro hregistered
      simp [closeOperations, show attachment.unregistered = false from hregistered]
    · intro hmobile hpairing hreleased
      simp [closeOperations, show attachment.activityReleased = false from hreleased,
        show attachment.mobile = true from hmobile, hpairing]
  publishing := nofun
  fulfilled := h.fulfilled

variable {started failed carried : List CloseOperation}

theorem complete (h : Closes config shared token attachment)
    (htransaction : attachment.closeTransaction = some (.draining started [] failed carried))
    (transaction : Option CloseTransaction) (capacityHeld fulfilled : Bool)
    (hnew : transaction = none ∨ transaction = some .publishing)
    (hswept : transaction = some .publishing ∨ fulfilled = true →
      (RemoteRelayProvider.complete attachment
        (started.filter fun operation => decide (operation ∉ failed))).IsSwept config) :
    Closes config shared token { RemoteRelayProvider.complete attachment
      (started.filter fun operation => decide (operation ∉ failed)) with
        capacityHeld
        closeTransaction := transaction
        closeFulfilled := fulfilled } := by
  obtain ⟨hfirst, hsecond, hcarried, -, -⟩ := h.draining started [] failed carried htransaction
  have hdone : ∀ operation ∈ started.filter (fun operation => decide (operation ∉ failed)),
      operation = .unregister ∨ operation = .activity → operation ∈ carried := by
    intro operation hmem heffect
    obtain ⟨hstarted, hkept⟩ := List.mem_filter.mp hmem
    rcases hcarried operation hstarted heffect with hwaits | hfails | hdone
    · cases hwaits
    · exact absurd hfails (of_decide_eq_true hkept)
    · exact hdone
  constructor
  · intro heq
    rcases Bool.or_eq_true_iff.mp heq with hold | hmem
    · exact h.unregistered hold
    · exact hfirst (hdone _ (of_decide_eq_true hmem) (.inl rfl))
  · intro heq
    rcases Bool.or_eq_true_iff.mp heq with hold | hmem
    · exact h.released hold
    · exact hsecond (hdone _ (of_decide_eq_true hmem) (.inr rfl))
  · intro started' waiting' failed' carried' heq
    rcases hnew with rfl | rfl
    · cases heq
    · cases heq
  · exact fun heq => hswept (.inl heq)
  · exact fun heq => hswept (.inr heq)

theorem swept (h : Closes config shared token attachment)
    (htransaction : attachment.closeTransaction = some (.draining started [] failed carried))
    (hunregister : .unregister ∉ failed) (hactivity : .activity ∉ failed) :
    (RemoteRelayProvider.complete attachment
      (started.filter fun operation => decide (operation ∉ failed))).IsSwept config := by
  obtain ⟨-, -, -, hregistered, hleased⟩ := h.draining started [] failed carried htransaction
  constructor
  · apply Bool.or_eq_true_iff.mpr
    cases heq : attachment.unregistered with
    | true => exact .inl rfl
    | false =>
      exact .inr (decide_eq_true
        (List.mem_filter.mpr ⟨hregistered heq, decide_eq_true hunregister⟩))
  · intro hmobile hpairing
    apply Bool.or_eq_true_iff.mpr
    cases heq : attachment.activityReleased with
    | true => exact .inl rfl
    | false =>
      exact .inr (decide_eq_true
        (List.mem_filter.mpr ⟨hleased hmobile hpairing heq, decide_eq_true hactivity⟩))

end Closes

namespace Hygienic

variable {config : RelayConfig} {provider : RemoteRelayProvider}

theorem clean (h : Hygienic config provider) (hadmitted : Admitted config False provider)
    {token : ConnectionToken} (hended : provider.Ended token)
    (hidle : ¬ provider.InFlight token) :
    (∀ key, provider.shared.directory.get? key ≠ some token) ∧ token ∉ provider.shared.leases := by
  have hswept : ∃ attachment, provider.locals.get? token = some attachment ∧
      attachment.IsSwept config := by
    rcases hended with ⟨id, call, hcall, hphase⟩ | ⟨attachment, hlocal, -, hfulfilled⟩
    · obtain ⟨attachment, hlocal, hclosed⟩ := hadmitted.failed id call token hcall
        (by rw [hphase]; rfl)
      refine ⟨attachment, hlocal, ?_⟩
      have hunresolved : provider.isResolved token = false := by
        rw [Bool.eq_false_iff]
        intro hresolved
        obtain ⟨other, found, hother, hresolved⟩ := isResolved_iff.mp hresolved
        have hsame := h.sole id call other found token hcall hother (by rw [hphase]; rfl)
          (by rw [hresolved]; rfl)
        rw [hsame, hother] at hcall
        cases hcall
        rw [hphase] at hresolved
        cases hresolved
      apply (h.sweeps token attachment hlocal hunresolved).swept hclosed
      cases htransaction : attachment.closeTransaction with
      | none => rfl
      | some transaction =>
        exact absurd (.inr (.inl ⟨attachment, hlocal, by rw [htransaction]; rfl⟩)) hidle
    · exact ⟨attachment, hlocal, (h.closes token attachment hlocal).fulfilled hfulfilled⟩
  obtain ⟨attachment, hlocal, hunregistered, hactivity⟩ := hswept
  have hcloses := h.closes token attachment hlocal
  constructor
  · intro key hkey
    exact (h.directory key token hkey).1 (hcloses.unregistered hunregistered)
  · intro hlease
    obtain ⟨hkept, found, hfound, hmobile, hpairing⟩ := h.leases token hlease
    rw [hlocal] at hfound
    cases hfound
    exact hkept (hcloses.released (hactivity hmobile hpairing))

theorem setLocal (h : Hygienic config provider) {token : ConnectionToken}
    {attachment next : LocalAttachment} (hget : provider.locals.get? token = some attachment)
    (hcloses : Closes config provider.shared token next)
    (hplace : (next.routeId, next.attachmentId, next.mobile) =
      (attachment.routeId, attachment.attachmentId, attachment.mobile))
    (hsweeps : provider.isResolved token = false → Sweeps config next) :
    Hygienic config (provider.setLocal token next) := by
  obtain ⟨hroute, hrest⟩ := Prod.mk.inj hplace
  obtain ⟨hid, hmobile⟩ := Prod.mk.inj hrest
  have hlocals : ∀ other found, (provider.setLocal token next).locals.get? other = some found →
      other = token ∧ found = next ∨ provider.locals.get? other = some found := by
    intro other found hfound
    exact (OrderedMap.of_get?_set hfound).imp_right And.right
  have hkept : ∀ other earlier, provider.locals.get? other = some earlier →
      ∃ found, (provider.setLocal token next).locals.get? other = some found ∧
        found.routeId = earlier.routeId ∧ found.attachmentId = earlier.attachmentId ∧
          found.mobile = earlier.mobile := by
    intro other earlier hearlier
    unfold RemoteRelayProvider.setLocal
    rw [OrderedMap.get?_set]
    split
    · rename_i heq
      rw [heq, hget] at hearlier
      cases hearlier
      exact ⟨next, rfl, hroute, hid, hmobile⟩
    · exact ⟨earlier, hearlier, rfl, rfl, rfl⟩
  have hmobiles : ∀ other, (∃ earlier, provider.locals.get? other = some earlier ∧
      earlier.mobile = true ∧ config.pairingActivity = true) →
        ∃ found, (provider.setLocal token next).locals.get? other = some found ∧
          found.mobile = true ∧ config.pairingActivity = true := by
    rintro other ⟨earlier, hearlier, hearlierMobile, hpairing⟩
    obtain ⟨found, hfound, -, -, hsame⟩ := hkept other earlier hearlier
    exact ⟨found, hfound, hsame.trans hearlierMobile, hpairing⟩
  refine { h with
    directory := ?_, leases := ?_, touching := ?_, recording := ?_, closes := ?_, sweeps := ?_ }
  · intro key other hkey
    obtain ⟨hnew, earlier, hearlier, rfl⟩ := h.directory key other hkey
    obtain ⟨found, hfound, hfoundRoute, hfoundId, -⟩ := hkept other earlier hearlier
    exact ⟨hnew, found, hfound, by rw [hfoundRoute, hfoundId]⟩
  · intro other hother
    exact ⟨(h.leases other hother).1, hmobiles other (h.leases other hother).2⟩
  · exact fun other hother => hmobiles other (h.touching other hother)
  · exact fun id call other applied hcall hphase =>
      hmobiles other (h.recording id call other applied hcall hphase)
  · intro other found hfound
    rcases hlocals other found hfound with ⟨rfl, rfl⟩ | hold
    · exact hcloses
    · exact h.closes other found hold
  · intro other found hfound hunresolved
    rcases hlocals other found hfound with ⟨rfl, rfl⟩ | hold
    · exact hsweeps hunresolved
    · exact h.sweeps other found hold hunresolved

theorem setPhase (h : Hygienic config provider) {id : CallId} {call : AttachCall}
    {phase : AttachPhase} (hget : provider.calls.get? id = some call)
    (hactive : call.phase.isActive = true)
    (hattached : ∀ token, phase.attached? = some token → call.phase.attached? = some token)
    (hrecording : ∀ token applied, phase = .recording token applied → ∃ attachment,
      provider.locals.get? token = some attachment ∧ attachment.mobile = true ∧
        config.pairingActivity = true) :
    Hygienic config (provider.setPhase id call phase) := by
  have hcalls : ∀ other found, (provider.setPhase id call phase).calls.get? other = some found →
      other = id ∧ found = { call with phase } ∨ provider.calls.get? other = some found := by
    intro other found hfound
    exact (OrderedMap.of_get?_set hfound).imp_right And.right
  refine { h with sole := ?_, recording := ?_, sweeps := ?_ }
  · intro other found third last token hfound hlast htoken hlastToken
    rcases hcalls other found hfound with ⟨rfl, rfl⟩ | hold
    · rcases hcalls third last hlast with ⟨rfl, rfl⟩ | hkept
      · rfl
      · exact h.sole _ call third last token hget hkept (hattached token htoken) hlastToken
    · rcases hcalls third last hlast with ⟨rfl, rfl⟩ | hkept
      · exact h.sole other found _ call token hold hget htoken (hattached token hlastToken)
      · exact h.sole other found third last token hold hkept htoken hlastToken
  · intro other found token applied hfound hphase
    rcases hcalls other found hfound with ⟨rfl, rfl⟩ | hold
    · exact hrecording token applied hphase
    · exact h.recording other found token applied hold hphase
  · intro token attachment hlocal hunresolved
    apply h.sweeps token attachment hlocal
    rw [Bool.eq_false_iff] at hunresolved ⊢
    intro hresolved
    obtain ⟨other, found, hfound, hphase⟩ := isResolved_iff.mp hresolved
    apply hunresolved
    have hne : other ≠ id := by
      rintro rfl
      rw [hget] at hfound
      cases hfound
      rw [hphase] at hactive
      cases hactive
    refine isResolved_iff.mpr ⟨other, found, ?_, hphase⟩
    unfold RemoteRelayProvider.setPhase
    rw [OrderedMap.get?_set, if_neg hne]
    exact hfound

theorem hear_eq_resolved {phase : AttachPhase} {token other : ConnectionToken} {fulfilled : Bool} :
    phase.hear token fulfilled = .resolved other ↔ phase = .resolved other := by
  unfold AttachPhase.hear
  split <;> simp

theorem hear_eq_recording {phase : AttachPhase} {token other : ConnectionToken}
    {fulfilled applied : Bool} :
    phase.hear token fulfilled = .recording other applied ↔ phase = .recording other applied := by
  unfold AttachPhase.hear
  split <;> simp

theorem hear (h : Hygienic config provider) (token : ConnectionToken) (fulfilled : Bool) :
    Hygienic config { provider with calls := provider.calls.mapValues (·.hear token fulfilled) } := by
  have hcalls : ∀ id found,
      (provider.calls.mapValues (·.hear token fulfilled)).get? id = some found →
        ∃ call, provider.calls.get? id = some call ∧ found = call.hear token fulfilled := by
    intro id found hfound
    rw [OrderedMap.get?_mapValues] at hfound
    obtain ⟨call, hcall, rfl⟩ := Option.map_eq_some_iff.mp hfound
    exact ⟨call, hcall, rfl⟩
  refine { h with sole := ?_, recording := ?_, sweeps := ?_ }
  · intro id found other last token' hfound hlast htoken hlastToken
    obtain ⟨call, hcall, rfl⟩ := hcalls id found hfound
    obtain ⟨call', hcall', rfl⟩ := hcalls other last hlast
    exact h.sole id call other call' token' hcall hcall'
      ((AttachPhase.attached?_hear _ _ _).symm.trans htoken)
      ((AttachPhase.attached?_hear _ _ _).symm.trans hlastToken)
  · intro id found other applied hfound hphase
    obtain ⟨call, hcall, rfl⟩ := hcalls id found hfound
    exact h.recording id call other applied hcall (hear_eq_recording.mp hphase)
  · intro other attachment hlocal hunresolved
    apply h.sweeps other attachment hlocal
    rw [Bool.eq_false_iff] at hunresolved ⊢
    intro hresolved
    obtain ⟨id, call, hcall, hphase⟩ := isResolved_iff.mp hresolved
    apply hunresolved
    refine isResolved_iff.mpr ⟨id, call.hear token fulfilled, ?_, hear_eq_resolved.mpr hphase⟩
    dsimp only
    rw [OrderedMap.get?_mapValues, hcall]
    rfl

theorem share (h : Hygienic config provider) {shared : SharedState}
    (hdirectory : ∀ key token, shared.directory.get? key = some token →
      token ∉ shared.unregistered ∧ ∃ attachment, provider.locals.get? token = some attachment ∧
        key = (attachment.routeId, attachment.attachmentId))
    (hleases : ∀ token ∈ shared.leases, token ∉ shared.leaseReleased ∧
      ∃ attachment, provider.locals.get? token = some attachment ∧ attachment.mobile = true ∧
        config.pairingActivity = true)
    (hunregistered : provider.shared.unregistered ⊆ shared.unregistered)
    (hreleased : provider.shared.leaseReleased ⊆ shared.leaseReleased) :
    Hygienic config { provider with shared } :=
  { h with
    directory := hdirectory
    leases := hleases
    closes := fun token attachment hlocal =>
      (h.closes token attachment hlocal).mono hunregistered hreleased }

theorem register (h : Hygienic config provider) {token : ConnectionToken}
    {attachment : LocalAttachment} (hget : provider.locals.get? token = some attachment)
    (hclean : token ∉ provider.shared.unregistered) :
    Hygienic config (provider.register attachment token) := by
  refine h.share ?_ h.leases (List.Subset.refl _) (List.Subset.refl _)
  intro key other hkey
  rcases OrderedMap.of_get?_set hkey with ⟨rfl, rfl⟩ | ⟨-, hold⟩
  · exact ⟨hclean, attachment, hget, rfl⟩
  · exact h.directory key other hold

theorem recordLease (h : Hygienic config provider) {token : ConnectionToken}
    (hmobile : ∃ attachment, provider.locals.get? token = some attachment ∧
      attachment.mobile = true ∧ config.pairingActivity = true)
    (hclean : token ∉ provider.shared.leaseReleased) :
    Hygienic config (provider.recordLease token) := by
  refine h.share h.directory ?_ (List.Subset.refl _) (List.Subset.refl _)
  intro other hother
  rcases List.mem_cons.mp hother with rfl | hold
  · exact ⟨hclean, hmobile⟩
  · exact h.leases other hold

theorem unregister (h : Hygienic config provider) {token : ConnectionToken}
    {attachment : LocalAttachment} (hget : provider.locals.get? token = some attachment) :
    Hygienic config (provider.unregister attachment token) := by
  refine h.share ?_ h.leases (List.subset_cons_self _ _) (List.Subset.refl _)
  intro key other hkey
  have hentry : provider.shared.directory.get? key = some other ∧ other ≠ token := by
    dsimp only at hkey
    split at hkey
    · rename_i hcurrent
      rw [OrderedMap.get?_delete] at hkey
      split at hkey
      · cases hkey
      · rename_i hne
        refine ⟨hkey, ?_⟩
        rintro rfl
        obtain ⟨-, found, hfound, rfl⟩ := h.directory key other hkey
        rw [hget] at hfound
        cases hfound
        exact hne rfl
    · rename_i hcurrent
      refine ⟨hkey, ?_⟩
      rintro rfl
      obtain ⟨-, found, hfound, rfl⟩ := h.directory key other hkey
      rw [hget] at hfound
      cases hfound
      exact hcurrent hkey
  obtain ⟨hold, hne⟩ := hentry
  obtain ⟨hclean, hplace⟩ := h.directory key other hold
  refine ⟨?_, hplace⟩
  intro hmem
  rcases List.mem_cons.mp hmem with rfl | hrest
  · exact hne rfl
  · exact hclean hrest

theorem releaseLease (h : Hygienic config provider) (token : ConnectionToken) :
    Hygienic config (provider.releaseLease token) := by
  refine h.share h.directory ?_ (List.Subset.refl _) (List.subset_cons_self _ _)
  intro other hother
  obtain ⟨hold, hne⟩ := List.mem_filter.mp hother
  obtain ⟨hclean, hmobile⟩ := h.leases other hold
  refine ⟨?_, hmobile⟩
  intro hmem
  rcases List.mem_cons.mp hmem with rfl | hrest
  · exact of_decide_eq_true hne rfl
  · exact hclean hrest

theorem carryOut (h : Hygienic config provider) {token : ConnectionToken}
    {attachment : LocalAttachment} (hget : provider.locals.get? token = some attachment)
    (operation : CloseOperation) : Hygienic config (provider.carryOut attachment token operation) := by
  cases operation with
  | unregister => exact h.unregister hget
  | activity => exact h.releaseLease token
  | writer => exact h
  | socket => exact h

theorem closeAndDrain (h : Hygienic config provider) (token : ConnectionToken) :
    Hygienic config (provider.closeAndDrain config token) := by
  unfold RemoteRelayProvider.closeAndDrain
  split
  · exact h
  · rename_i attachment hget
    split
    · exact h
    · apply h.setLocal hget ((h.closes token attachment hget).begin true) rfl
      intro _
      constructor
      · rintro started waiting failed carried ⟨⟩
        exact ⟨nofun, nofun⟩
      · exact nofun

theorem settleClose (h : Hygienic config provider) {token : ConnectionToken}
    {attachment : LocalAttachment} (hget : provider.locals.get? token = some attachment)
    {started failed carried : List CloseOperation}
    (htransaction : attachment.closeTransaction = some (.draining started [] failed carried)) :
    Hygienic config (provider.settleClose token attachment started failed) := by
  have hcloses := h.closes token attachment hget
  unfold RemoteRelayProvider.settleClose
  dsimp only
  split
  · have hnew := hcloses.complete htransaction none attachment.capacityHeld false (.inl rfl) nofun
    have hlocal := h.setLocal hget hnew rfl fun hunresolved => ⟨nofun, fun _ _ => by
      obtain ⟨hunregister, hactivity⟩ := (h.sweeps token attachment hget hunresolved).kept
        started [] failed carried htransaction
      exact hcloses.swept htransaction hunregister hactivity⟩
    exact hlocal.hear token false
  · rename_i hnone
    rw [ne_eq, not_not] at hnone
    subst hnone
    have hswept := hcloses.swept htransaction nofun nofun
    have hnew := hcloses.complete htransaction (some .publishing) false attachment.closeFulfilled
      (.inr rfl) fun _ => hswept
    have hlocal := h.setLocal hget hnew rfl fun _ => ⟨nofun, nofun⟩
    exact { hlocal with }

theorem stepClose (h : Hygienic config provider) {token : ConnectionToken}
    {attachment : LocalAttachment} (hget : provider.locals.get? token = some attachment) {op : Op}
    (htoken : op.closing? = some token) (htidy : provider.Tidy op) {next : RemoteRelayProvider}
    (hstep : provider.stepClose token attachment op = some next) : Hygienic config next := by
  have hcloses := h.closes token attachment hget
  unfold RemoteRelayProvider.stepClose at hstep
  split at hstep
  · split at hstep
    · rename_i operation _ started waiting failed carried htransaction
      split at hstep
      · cases hstep
        have hkept : (provider.carryOut attachment token operation).locals.get? token =
            some attachment := by
          rw [Admitted.locals_carryOut]
          exact hget
        have hcarried := h.carryOut hget operation
        have hclosesNow := hcarried.closes token attachment hkept
        obtain ⟨hfirst, hsecond, hall, hrest⟩ :=
          hclosesNow.draining started waiting failed carried htransaction
        refine hcarried.setLocal hkept
          ⟨hclosesNow.unregistered, hclosesNow.released, ?_, nofun, hclosesNow.fulfilled⟩ rfl ?_
        · rintro _ _ _ _ ⟨⟩
          refine ⟨?_, ?_, ?_, hrest⟩
          · intro hmem
            rcases List.mem_cons.mp hmem with rfl | hold
            · exact List.mem_cons_self
            · exact hfirst hold
          · intro hmem
            rcases List.mem_cons.mp hmem with rfl | hold
            · exact List.mem_cons_self
            · exact hsecond hold
          · intro other hother heffect
            exact (hall other hother heffect).imp_right (Or.imp_right (List.mem_cons_of_mem _))
        · intro hunresolved
          have hsweeps := hcarried.sweeps token attachment hkept hunresolved
          refine ⟨?_, nofun⟩
          rintro _ _ _ _ ⟨⟩
          exact hsweeps.kept started waiting failed carried htransaction
      · cases hstep
    · cases hstep
  · split at hstep
    · rename_i operation fulfilled _ started waiting failed carried htransaction
      split at hstep
      · rename_i hallowed
        obtain ⟨-, -, heffect⟩ := hallowed
        cases hstep
        cases htoken
        obtain ⟨hfirst, hsecond, hall, hrest⟩ :=
          hcloses.draining started waiting failed carried htransaction
        refine h.setLocal hget
          ⟨hcloses.unregistered, hcloses.released, ?_, nofun, hcloses.fulfilled⟩ rfl ?_
        · rintro _ _ _ _ ⟨⟩
          refine ⟨hfirst, hsecond, ?_, hrest⟩
          intro other hother hkind
          by_cases hsame : other = operation
          · subst hsame
            cases fulfilled with
            | true => exact .inr (.inr (heffect rfl hkind))
            | false => exact .inr (.inl List.mem_cons_self)
          · rcases hall other hother hkind with hwaits | hfails | hdone
            · exact .inl (List.mem_filter.mpr ⟨hwaits, decide_eq_true hsame⟩)
            · refine .inr (.inl ?_)
              split
              · exact hfails
              · exact List.mem_cons_of_mem _ hfails
            · exact .inr (.inr hdone)
        · intro hunresolved
          obtain ⟨hunregister, hactivity⟩ := (h.sweeps token attachment hget hunresolved).kept
            started waiting failed carried htransaction
          have hallowed : fulfilled = false → operation ≠ .unregister ∧ operation ≠ .activity := by
            intro hrefused
            have hkind := htidy hrefused
            rw [hunresolved] at hkind
            exact ⟨fun heq => absurd (hkind (.inl heq)) nofun,
              fun heq => absurd (hkind (.inr heq)) nofun⟩
          refine ⟨?_, nofun⟩
          rintro _ _ _ _ ⟨⟩
          cases fulfilled with
          | true => exact ⟨hunregister, hactivity⟩
          | false =>
            obtain ⟨hfirstNe, hsecondNe⟩ := hallowed rfl
            constructor
            · intro hmem
              exact (List.mem_cons.mp hmem).elim (fun heq => hfirstNe heq.symm) hunregister
            · intro hmem
              exact (List.mem_cons.mp hmem).elim (fun heq => hsecondNe heq.symm) hactivity
      · cases hstep
    · cases hstep
  · split at hstep
    · rename_i htransaction
      cases hstep
      exact h.settleClose hget htransaction
    · cases hstep
  · split at hstep
    · rename_i fulfilled _ htransaction
      cases hstep
      have hswept := hcloses.publishing htransaction
      have hnew : Closes config provider.shared token
          { attachment with closeTransaction := none, closeFulfilled := fulfilled } :=
        ⟨hcloses.unregistered, hcloses.released, nofun, nofun, fun _ => hswept⟩
      have hlocal := h.setLocal hget hnew rfl fun _ => ⟨nofun, fun _ _ => hswept⟩
      exact hlocal.hear token fulfilled
    · cases hstep
  · cases hstep

theorem beginAttach (h : Hygienic config provider) (hadmitted : Admitted config False provider)
    (routeId attachmentId : String) (mobile hasClose granted : Bool) :
    Hygienic config
      (provider.beginAttach config routeId attachmentId mobile hasClose granted) := by
  unfold RemoteRelayProvider.beginAttach
  dsimp only
  split
  · exact h
  · split
    · exact { h with }
    · refine { h with sole := ?_, recording := ?_, sweeps := ?_ }
      · intro id call other found token hcall hfound htoken hfoundToken
        rcases OrderedMap.of_get?_set hcall with ⟨rfl, rfl⟩ | ⟨-, hold⟩
        · cases htoken
        · rcases OrderedMap.of_get?_set hfound with ⟨rfl, rfl⟩ | ⟨-, hkept⟩
          · cases hfoundToken
          · exact h.sole id call other found token hold hkept htoken hfoundToken
      · intro id call token applied hcall hphase
        rcases OrderedMap.of_get?_set hcall with ⟨rfl, rfl⟩ | ⟨-, hold⟩
        · cases hphase
        · exact h.recording id call token applied hold hphase
      · intro token attachment hlocal hunresolved
        apply h.sweeps token attachment hlocal
        rw [Bool.eq_false_iff] at hunresolved ⊢
        intro hresolved
        obtain ⟨id, call, hcall, hphase⟩ := isResolved_iff.mp hresolved
        apply hunresolved
        refine isResolved_iff.mpr ⟨id, call, ?_, hphase⟩
        dsimp only
        rw [OrderedMap.get?_set, if_neg]
        · exact hcall
        · exact Nat.ne_of_lt (hadmitted.called id call hcall)

theorem publish (h : Hygienic config provider) (hadmitted : Admitted config False provider)
    {id : CallId} {call : AttachCall} (hget : provider.calls.get? id = some call)
    (hactive : call.phase.isActive = true) (capacityHeld : Bool) :
    Hygienic config (provider.publish id call capacityHeld) := by
  have hkept : ∀ (added : LocalAttachment) token attachment,
      provider.locals.get? token = some attachment →
        (provider.locals.set provider.next added).get? token = some attachment := by
    intro added token attachment hlocal
    rw [OrderedMap.get?_set, if_neg]
    · exact hlocal
    · exact Nat.ne_of_lt (hadmitted.drawn token attachment hlocal)
  have hmobiles : ∀ (added : LocalAttachment) token,
      (∃ attachment, provider.locals.get? token = some attachment ∧ attachment.mobile = true ∧
        config.pairingActivity = true) →
      ∃ attachment, (provider.locals.set provider.next added).get? token = some attachment ∧
        attachment.mobile = true ∧ config.pairingActivity = true := by
    rintro added token ⟨attachment, hlocal, hmobile⟩
    exact ⟨attachment, hkept added token attachment hlocal, hmobile⟩
  have hunused : ∀ other found, provider.calls.get? other = some found →
      found.phase.attached? ≠ some provider.next := by
    intro other found hfound htoken
    obtain ⟨attachment, hlocal, -⟩ := hadmitted.owned other found _ hfound htoken
    exact absurd (hadmitted.drawn _ attachment hlocal) (Nat.lt_irrefl _)
  unfold RemoteRelayProvider.publish RemoteRelayProvider.setPhase RemoteRelayProvider.setLocal
  refine {
    sole := ?_, directory := ?_, leases := ?_, touching := ?_, recording := ?_, closes := ?_
    sweeps := ?_ }
  · intro other found third last token hfound hlast htoken hlastToken
    rcases OrderedMap.of_get?_set hfound with ⟨rfl, rfl⟩ | ⟨-, hold⟩
    · cases htoken
      rcases OrderedMap.of_get?_set hlast with ⟨rfl, rfl⟩ | ⟨-, hlate⟩
      · rfl
      · exact absurd hlastToken (hunused third last hlate)
    · rcases OrderedMap.of_get?_set hlast with ⟨rfl, rfl⟩ | ⟨-, hlate⟩
      · cases hlastToken
        exact absurd htoken (hunused other found hold)
      · exact h.sole other found third last token hold hlate htoken hlastToken
  · intro key token hkey
    obtain ⟨hclean, attachment, hlocal, heq⟩ := h.directory key token hkey
    exact ⟨hclean, attachment, hkept _ token attachment hlocal, heq⟩
  · intro token htoken
    obtain ⟨hclean, hmobile⟩ := h.leases token htoken
    exact ⟨hclean, hmobiles _ token hmobile⟩
  · intro token htoken
    exact hmobiles _ token (h.touching token htoken)
  · intro other found token applied hfound hphase
    rcases OrderedMap.of_get?_set hfound with ⟨rfl, rfl⟩ | ⟨-, hold⟩
    · cases hphase
    · exact hmobiles _ token (h.recording other found token applied hold hphase)
  · intro token attachment hlocal
    rcases OrderedMap.of_get?_set hlocal with ⟨rfl, rfl⟩ | ⟨-, hold⟩
    · exact ⟨nofun, nofun, nofun, nofun, nofun⟩
    · exact h.closes token attachment hold
  · intro token attachment hlocal hunresolved
    rcases OrderedMap.of_get?_set hlocal with ⟨rfl, rfl⟩ | ⟨-, hold⟩
    · exact ⟨nofun, nofun⟩
    · apply h.sweeps token attachment hold
      rw [Bool.eq_false_iff] at hunresolved ⊢
      intro hresolved
      obtain ⟨other, found, hfound, hphase⟩ := isResolved_iff.mp hresolved
      apply hunresolved
      refine isResolved_iff.mpr ⟨other, found, ?_, hphase⟩
      dsimp only
      rw [OrderedMap.get?_set, if_neg]
      · exact hfound
      · rintro rfl
        rw [hget] at hfound
        cases hfound
        rw [hphase] at hactive
        cases hactive

theorem endCall (h : Hygienic config provider) {id : CallId} {call : AttachCall}
    {phase : AttachPhase} {released : Nat} (hget : provider.calls.get? id = some call)
    (hbefore : call.phase.isActive = true) (hafter : phase.isActive = false)
    (hattached : ∀ token, phase.attached? = some token → call.phase.attached? = some token) :
    Hygienic config ({ provider with released }.endCall id call phase) := by
  have hphase := h.setPhase hget hbefore hattached fun token applied heq => by
    rw [heq] at hafter
    cases hafter
  exact { hphase with }

theorem rejectAttach (h : Hygienic config provider) {id : CallId} {call : AttachCall}
    (hget : provider.calls.get? id = some call) (hactive : call.phase.isActive = true)
    (capacityHeld : Bool) : Hygienic config (provider.rejectAttach id call capacityHeld) :=
  h.endCall hget hactive rfl nofun

theorem cleaning (h : Hygienic config provider) {id : CallId} {call : AttachCall}
    {token : ConnectionToken} (hget : provider.calls.get? id = some call)
    (hactive : call.phase.isActive = true) (hattached : call.phase.attached? = some token) :
    Hygienic config
      ((provider.closeAndDrain config token).setPhase id call (.cleaning token none)) := by
  refine (h.closeAndDrain token).setPhase (Admitted.calls_closeAndDrain.symm ▸ hget) hactive ?_
    nofun
  rintro _ ⟨⟩
  exact hattached

theorem failAttach (h : Hygienic config provider) {id : CallId} {call : AttachCall}
    {token : ConnectionToken} (hget : provider.calls.get? id = some call)
    (hactive : call.phase.isActive = true) (hattached : call.phase.attached? = some token) :
    Hygienic config (provider.failAttach config id call token) := by
  unfold RemoteRelayProvider.failAttach
  split
  · exact h.cleaning hget hactive hattached
  · refine h.endCall hget hactive rfl ?_
    rintro _ ⟨⟩
    exact hattached

theorem goOn (h : Hygienic config provider) {id : CallId} {call : AttachCall}
    {token : ConnectionToken} {phase : AttachPhase} (hget : provider.calls.get? id = some call)
    (hactive : call.phase.isActive = true) (hattached : call.phase.attached? = some token)
    (hsame : phase.attached? = some token)
    (hrecording : ∀ other applied, phase = .recording other applied → ∃ attachment,
      provider.locals.get? other = some attachment ∧ attachment.mobile = true ∧
        config.pairingActivity = true) :
    Hygienic config (provider.setPhase id call phase) := by
  refine h.setPhase hget hactive ?_ hrecording
  intro other hother
  rw [← hsame.symm.trans hother]
  exact hattached

theorem recorded_attachment {token : ConnectionToken}
    (h : provider.isRecorded config token = true) :
    ∃ attachment, provider.locals.get? token = some attachment ∧ attachment.mobile = true ∧
      config.pairingActivity = true := by
  obtain ⟨hpairing, hany⟩ := Bool.and_eq_true_iff.mp h
  obtain ⟨attachment, hlocal, hmobile⟩ := Option.any_eq_true _ _ |>.mp hany
  exact ⟨attachment, hlocal, hmobile, hpairing⟩

theorem authorized_steps (h : Hygienic config provider) (hadmitted : Admitted config False provider)
    {id : CallId} {call : AttachCall} {capacityHeld : Bool}
    (hget : provider.calls.get? id = some call)
    (hphase : call.phase = .authorizing capacityHeld) (accepted aborted : Bool) :
    Hygienic config (provider.authorized config id call capacityHeld accepted aborted) := by
  have hactive : call.phase.isActive = true := by rw [hphase]; rfl
  unfold RemoteRelayProvider.authorized
  split
  · exact h.rejectAttach hget hactive capacityHeld
  · split
    · split
      · exact h.rejectAttach hget hactive capacityHeld
      · exact h.publish hadmitted hget hactive capacityHeld
    · rename_i existing _
      split
      · exact h
      · rename_i attachment hlocal
        have hcloses := h.closes existing attachment hlocal
        have hnew : Closes config provider.shared existing
            { attachment with capacityHeld := false } :=
          ⟨hcloses.unregistered, hcloses.released, hcloses.draining, hcloses.publishing,
            hcloses.fulfilled⟩
        have hreleased := h.setLocal hlocal hnew rfl fun hunresolved =>
          have hsweeps := h.sweeps existing attachment hlocal hunresolved
          ⟨hsweeps.kept, hsweeps.swept⟩
        exact (hreleased.closeAndDrain existing).setPhase
          (Admitted.calls_closeAndDrain.symm ▸ hget) hactive nofun nofun

theorem reauthorized_steps (h : Hygienic config provider) {id : CallId} {call : AttachCall}
    {token : ConnectionToken} (hget : provider.calls.get? id = some call)
    (hphase : call.phase = .reauthorizing token) (answer : Option Bool) :
    Hygienic config (provider.reauthorized config id call token answer) := by
  have hactive : call.phase.isActive = true := by rw [hphase]; rfl
  have hattached : call.phase.attached? = some token := by rw [hphase]; rfl
  unfold RemoteRelayProvider.reauthorized
  split
  · exact h.failAttach hget hactive hattached
  · split
    · exact h.cleaning hget hactive hattached
    · split
      · rename_i hrecorded
        refine h.goOn hget hactive hattached rfl ?_
        rintro _ _ ⟨⟩
        exact recorded_attachment hrecorded
      · exact h.goOn hget hactive hattached rfl nofun

theorem stepCall (h : Hygienic config provider) (hadmitted : Admitted config False provider)
    {id : CallId} {call : AttachCall} (hget : provider.calls.get? id = some call) {op : Op}
    (hcall : op.call? = some id) (htidy : provider.Tidy op) {next : RemoteRelayProvider}
    (hstep : provider.stepCall config id call op = some next) : Hygienic config next := by
  have hwaits : ∀ phase token, call.phase = phase → phase.isActive = true →
      phase.attached? = some token →
        call.phase.isActive = true ∧ call.phase.attached? = some token := by
    rintro phase token rfl hactive hattached
    exact ⟨hactive, hattached⟩
  unfold RemoteRelayProvider.stepCall at hstep
  split at hstep
  · split at hstep
    · rename_i hphase
      cases hstep
      exact h.authorized_steps hadmitted hget hphase _ _
    · cases hstep
  · split at hstep
    · rename_i hphase
      have hactive : call.phase.isActive = true := by rw [hphase]; rfl
      cases hstep
      unfold RemoteRelayProvider.replaced
      split
      · exact h.rejectAttach hget hactive _
      · exact h.publish hadmitted hget hactive _
    · cases hstep
  · split at hstep
    · rename_i token hphase
      obtain ⟨hactive, hattached⟩ := hwaits _ token hphase rfl rfl
      cases hstep
      split
      · exact h.goOn hget hactive hattached rfl nofun
      · exact h.failAttach hget hactive hattached
    · cases hstep
  · split at hstep
    · rename_i token hphase
      obtain ⟨hactive, hattached⟩ := hwaits _ token hphase rfl rfl
      obtain ⟨attachment, hlocal, rfl⟩ := Option.map_eq_some_iff.mp hstep
      cases hcall
      have hregistered := h.register hlocal (htidy call hget token hattached)
      exact hregistered.goOn hget hactive hattached rfl nofun
    · cases hstep
  · split at hstep
    · rename_i token applied hphase
      obtain ⟨hactive, hattached⟩ := hwaits _ token hphase rfl rfl
      split at hstep
      · split at hstep
        · cases hstep
          exact h.goOn hget hactive hattached rfl nofun
        · cases hstep
      · cases hstep
        exact h.failAttach hget hactive hattached
    · cases hstep
  · split at hstep
    · rename_i hphase
      cases hstep
      exact h.reauthorized_steps hget hphase _
    · cases hstep
  · split at hstep
    · rename_i token hphase
      obtain ⟨hactive, hattached⟩ := hwaits _ token hphase rfl rfl
      cases hstep
      cases hcall
      have hmobile := h.recording _ call token false hget hphase
      have hleased := h.recordLease hmobile (htidy call hget token hattached)
      refine hleased.goOn hget hactive hattached rfl ?_
      rintro _ _ ⟨⟩
      exact hmobile
    · cases hstep
  · split at hstep
    · rename_i token applied hphase
      obtain ⟨hactive, hattached⟩ := hwaits _ token hphase rfl rfl
      split at hstep
      · split at hstep
        · cases hstep
          exact h.goOn hget hactive hattached rfl nofun
        · cases hstep
      · cases hstep
        exact h.failAttach hget hactive hattached
    · cases hstep
  · split at hstep
    · rename_i token hphase
      obtain ⟨hactive, hattached⟩ := hwaits _ token hphase rfl rfl
      cases hstep
      split
      · refine h.endCall hget hactive rfl ?_
        rintro _ ⟨⟩
        exact hattached
      · exact h.failAttach hget hactive hattached
    · cases hstep
  · split at hstep
    · rename_i token ended hphase
      obtain ⟨hactive, hattached⟩ := hwaits _ token hphase rfl rfl
      cases hstep
      refine h.endCall hget hactive rfl ?_
      rintro _ ⟨⟩
      exact hattached
    · cases hstep
  · cases hstep

theorem step (h : Hygienic config provider) (hadmitted : Admitted config False provider) {op : Op}
    (htidy : provider.Tidy op) {next : RemoteRelayProvider}
    (hstep : RemoteRelayProvider.step config provider op = some next) : Hygienic config next := by
  unfold RemoteRelayProvider.step at hstep
  split at hstep
  · cases hstep
    exact h.beginAttach hadmitted _ _ _ _ _
  · split at hstep
    · cases hstep
      exact h.closeAndDrain _
    · cases hstep
  · split at hstep
    · rename_i hrecorded
      cases hstep
      refine { h with touching := ?_ }
      intro token htoken
      rcases List.mem_cons.mp htoken with rfl | hold
      · exact recorded_attachment hrecorded
      · exact h.touching token hold
    · cases hstep
  · split at hstep
    · rename_i htouching
      cases hstep
      exact h.recordLease (h.touching _ htouching) htidy
    · cases hstep
  · split at hstep
    · cases hstep
      refine { h with touching := ?_ }
      intro token htoken
      exact h.touching token (List.mem_of_mem_erase htoken)
    · cases hstep
  · cases hstep
    exact { h with }
  · split at hstep
    · rename_i id hcall
      obtain ⟨call, hget, hnext⟩ := Option.bind_eq_some_iff.mp hstep
      exact h.stepCall hadmitted hget hcall htidy hnext
    · obtain ⟨token, htoken, hbind⟩ := Option.bind_eq_some_iff.mp hstep
      obtain ⟨attachment, hget, hnext⟩ := Option.bind_eq_some_iff.mp hbind
      exact h.stepClose hget htoken htidy hnext

end Hygienic

theorem fresh_hygienic (config : RelayConfig) : Hygienic config .fresh where
  sole := fun _ _ _ _ _ h => by cases h
  directory := fun _ _ h => by cases h
  leases := fun _ h => by cases h
  touching := fun _ h => by cases h
  recording := fun _ _ _ _ h => by cases h
  closes := fun _ _ h => by cases h
  sweeps := fun _ _ h => by cases h

/-- In a run whose shared calls are tidy, an attachment that has ended leaves neither an entry in the
directory nor a lease. -/
theorem relay_directory_hygiene {config : RelayConfig} {ops : List Op}
    {provider : RemoteRelayProvider}
    (hrun : run (RemoteRelayProvider.step config) .fresh ops = some provider)
    (htidy : Along (RemoteRelayProvider.step config) RemoteRelayProvider.Tidy .fresh ops)
    (token : ConnectionToken) (hended : provider.Ended token) (hidle : ¬ provider.InFlight token) :
    (∀ key, provider.shared.directory.get? key ≠ some token) ∧
      token ∉ provider.shared.leases := by
  have h : Admitted config False provider ∧ Hygienic config provider :=
    run_invariant_along (fun provider => Admitted config False provider ∧ Hygienic config provider)
      (fun _ _ _ hs hguard hstep =>
        ⟨hs.1.step nofun nofun hstep, hs.2.step hs.1 hguard hstep⟩)
      hrun htidy ⟨fresh_admitted config _, fresh_hygienic config⟩
  exact h.2.clean h.1 hended hidle

section Runs

instance decidableTidy (provider : RemoteRelayProvider) (op : Op) : Decidable (provider.Tidy op) :=
  match op with
  | .registers id => inferInstanceAs (Decidable (∀ call ∈ provider.calls.get? id,
      ∀ token ∈ call.phase.attached?, token ∉ provider.shared.unregistered))
  | .records id => inferInstanceAs (Decidable (∀ call ∈ provider.calls.get? id,
      ∀ token ∈ call.phase.attached?, token ∉ provider.shared.leaseReleased))
  | .touches token => inferInstanceAs (Decidable (token ∉ provider.shared.leaseReleased))
  | .settled token operation fulfilled => inferInstanceAs (Decidable (fulfilled = false →
      operation = .unregister ∨ operation = .activity → provider.isResolved token = true))
  | .attach .. => isTrue trivial
  | .authorized .. => isTrue trivial
  | .replaced .. => isTrue trivial
  | .announced .. => isTrue trivial
  | .registered .. => isTrue trivial
  | .reauthorized .. => isTrue trivial
  | .recorded .. => isTrue trivial
  | .published .. => isTrue trivial
  | .cleaned .. => isTrue trivial
  | .close .. => isTrue trivial
  | .carriesOut .. => isTrue trivial
  | .drained .. => isTrue trivial
  | .closePublished .. => isTrue trivial
  | .touch .. => isTrue trivial
  | .touched .. => isTrue trivial
  | .dispose => isTrue trivial

def settledAt (token : ConnectionToken) (provider : RemoteRelayProvider) : Bool :=
  provider.touching.isEmpty && provider.calls.values.all (!·.phase.isActive) &&
    (provider.locals.get? token).any fun attachment =>
      attachment.closed && attachment.closeFulfilled && !attachment.closeTransaction.isSome

theorem idle_of_settledAt {token : ConnectionToken} {provider : RemoteRelayProvider}
    (h : settledAt token provider = true) :
    provider.Ended token ∧ ¬ provider.InFlight token := by
  unfold settledAt at h
  rw [Bool.and_eq_true, Bool.and_eq_true] at h
  obtain ⟨⟨htouching, hcalls⟩, hlocal⟩ := h
  obtain ⟨attachment, hget, hstate⟩ := (Option.any_eq_true _ _).mp hlocal
  rw [Bool.and_eq_true, Bool.and_eq_true, Bool.not_eq_true'] at hstate
  obtain ⟨⟨hclosed, hfulfilled⟩, hidle⟩ := hstate
  refine ⟨.inr ⟨attachment, hget, hclosed, hfulfilled⟩, ?_⟩
  rintro (⟨id, call, hcall, -, hactive⟩ | ⟨found, hfound, hsome⟩ | hmem)
  · have hended := List.all_eq_true.mp hcalls call (OrderedMap.mem_values_iff.mpr ⟨id, hcall⟩)
    rw [hactive] at hended
    cases hended
  · rw [hget] at hfound
    cases hfound
    rw [hidle] at hsome
    cases hsome
  · rw [List.isEmpty_iff.mp htouching] at hmem
    cases hmem

def sweptOps : List Op := attaching 0 ++ closing 1

theorem relay_directory_hygiene_swept : ∃ provider,
    run (RemoteRelayProvider.step gated) .fresh sweptOps = some provider ∧
      (∀ key, provider.shared.directory.get? key ≠ some 1) ∧ 1 ∉ provider.shared.leases := by
  have hsettled : (run (RemoteRelayProvider.step gated) .fresh sweptOps).any (settledAt 1) = true := by
    decide +kernel
  obtain ⟨provider, hrun, hprovider⟩ := (Option.any_eq_true _ _).mp hsettled
  have htidy : Along (RemoteRelayProvider.step gated) RemoteRelayProvider.Tidy .fresh sweptOps := by
    decide +kernel
  obtain ⟨hended, hidle⟩ := idle_of_settledAt hprovider
  exact ⟨provider, hrun, relay_directory_hygiene hrun htidy 1 hended hidle⟩

/-- An invalidation closes the attachment before its attach call registers it; then authority has
changed, and the call cleans up an attachment that is taken to be unregistered. -/
def lateRegistrationOps : List Op :=
  [.attach "route" "desktop" false false true, .authorized 0 true false] ++ closing 1 ++
    [.announced 0 true, .registers 0, .registered 0 true, .reauthorized 0 (some false),
      .drained 1, .closePublished 1 true, .cleaned 0]

theorem late_registration_stays : ∃ provider,
    run (RemoteRelayProvider.step gated) .fresh lateRegistrationOps = some provider ∧
      (provider.calls.get? 0).map (·.phase) = some (.rejected (some 1)) ∧
        provider.Ended 1 ∧ ¬ provider.InFlight 1 ∧
          provider.shared.directory.get? ("route", "desktop") = some 1 := by
  have hsettled : (run (RemoteRelayProvider.step gated) .fresh lateRegistrationOps).any
      (fun provider => settledAt 1 provider &&
        decide ((provider.calls.get? 0).map (·.phase) = some (.rejected (some 1))) &&
          decide (provider.shared.directory.get? ("route", "desktop") = some 1)) = true := by
    decide +kernel
  obtain ⟨provider, hrun, hprovider⟩ := (Option.any_eq_true _ _).mp hsettled
  rw [Bool.and_eq_true, Bool.and_eq_true] at hprovider
  obtain ⟨⟨hsettledNow, hphase⟩, hentry⟩ := hprovider
  obtain ⟨hended, hidle⟩ := idle_of_settledAt hsettledNow
  exact ⟨provider, hrun, of_decide_eq_true hphase, hended, hidle, of_decide_eq_true hentry⟩

end Runs

end Harness.RemoteAccess.Relay
