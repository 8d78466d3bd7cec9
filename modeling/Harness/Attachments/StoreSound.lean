import Harness.Attachments.Store

namespace Harness.Attachments

open Harness.Foundation

namespace StoreEvent

def ends (capability : Capability) : StoreEvent → Prop
  | completed other | revoked other | expired other => other = capability
  | disposed => True
  | _ => False

def accesses (capability : Capability) : StoreEvent → Prop
  | inspected other _ _ _ | claimed other _ _ _ => other = capability
  | _ => False

def Honest (issued : OrderedMap Capability StoredEntry) : StoreEvent → Prop
  | inspected capability pairingId now ciphertext | claimed capability pairingId now ciphertext =>
    ∃ entry, issued.get? capability = some entry ∧ entry.pairingId = pairingId ∧
      now < entry.expiresAt ∧ entry.ciphertext = ciphertext
  | _ => True

def Quiet : StoreEvent → Prop
  | inspected .. | claimed .. | completed _ => False
  | _ => True

end StoreEvent

def Precedes (earlier later : StoreEvent) : Prop :=
  (∀ capability, earlier.ends capability → ¬ later.accesses capability) ∧
    ∀ capability, earlier = .completed capability → later ≠ .completed capability

theorem precedes_quiet {earlier later : StoreEvent} (h : later.Quiet) : Precedes earlier later := by
  cases later <;> first | exact False.elim h | exact ⟨fun _ _ => id, fun _ _ => nofun⟩

theorem order_quiet {log added : List StoreEvent} (h : log.Pairwise Precedes)
    (hadded : ∀ event ∈ added, event.Quiet) : (log ++ added).Pairwise Precedes := by
  apply List.pairwise_append.mpr
  refine ⟨h, ?_, fun _ _ event hmem => precedes_quiet (hadded event hmem)⟩
  induction added with
  | nil => exact .nil
  | cons first rest ih =>
    have hrest : ∀ event ∈ rest, event.Quiet :=
      fun event hmem => hadded event (List.mem_cons_of_mem first hmem)
    exact .cons (fun event hmem => precedes_quiet (hrest event hmem)) (ih hrest)

theorem order_snoc {log : List StoreEvent} {event : StoreEvent} (h : log.Pairwise Precedes)
    (hevent : ∀ earlier ∈ log, Precedes earlier event) : (log ++ [event]).Pairwise Precedes := by
  apply List.pairwise_append.mpr
  refine ⟨h, List.pairwise_singleton _ _, fun earlier hmem later hlater => ?_⟩
  cases List.mem_singleton.mp hlater
  exact hevent earlier hmem

theorem quiet_releaseOf {quota : Option Nat} : ∀ event ∈ releaseOf quota, event.Quiet := by
  intro event hmem
  obtain ⟨reservation, -, rfl⟩ := List.mem_map.mp hmem
  trivial

theorem ends_releaseOf {quota : Option Nat} {event : StoreEvent} (hmem : event ∈ releaseOf quota)
    (capability : Capability) : ¬ event.ends capability := by
  obtain ⟨reservation, -, rfl⟩ := List.mem_map.mp hmem
  exact id

/-- A consumption of the capability that may still be completed or abandoned. -/
def Consumption.pending (consumption : Consumption) (capability : Capability) : Bool :=
  !consumption.settled && decide (consumption.capability = capability)

structure Flow (config : Config) (state : AttachmentStore) : Prop where
  retained : ∀ capability entry, state.entries.get? capability = some entry →
    state.issued.get? capability = some entry ∧ ∀ event ∈ state.log, ¬ event.ends capability
  claimed : ∀ consumption ∈ state.consumptions,
    state.issued.get? consumption.capability = some consumption.entry
  pending : ∀ consumption ∈ state.consumptions, consumption.settled = false →
    state.entries.get? consumption.capability = none ∧
      .completed consumption.capability ∉ state.log ∧ .expired consumption.capability ∉ state.log
  single : ∀ capability, state.consumptions.countP (·.pending capability) ≤ 1
  unissued : ∀ capability, state.issued.get? capability = none →
    ∀ event ∈ state.log, event.ends capability → event = .disposed
  order : state.log.Pairwise Precedes
  honest : ∀ event ∈ state.log, event.Honest state.issued
  bounded : state.entries.size ≤ config.maxRetainedBlobs
  closed : state.closed = true → ∀ capability, state.entries.get? capability = none
  disposed : .disposed ∈ state.log → state.closed = true
  ending : state.sweeping = true → ∀ sweep ∈ state.sweeps.head?, sweep.final = true →
    state.closed = true
  sweeps : ∀ sweep ∈ state.sweeps, sweep.final = true → sweep.now = maxSafeInteger.toNat
  times : ∀ capability entry, state.issued.get? capability = some entry →
    entry.expiresAt ≤ maxSafeInteger.toNat
  waiting : ∀ id publishing, state.publishing.get? id = some publishing →
    publishing.entry.expiresAt ≤ maxSafeInteger.toNat
  busy : state.sweeping = true → state.sweeps ≠ []

/-- Times stay below the end of a `dispose`, and nothing is put back that was revoked or disposed
of meanwhile, nor over the limit. -/
def Fair (config : Config) (state : AttachmentStore) : StoreOp → Prop
  | .publish _ _ now _ => now + config.capabilityLifetimeMs ≤ maxSafeInteger.toNat
  | .publishOn _ _ => state.closed = false
  | .abandon index now => ∀ consumption ∈ state.consumptions[index]?,
      consumption.settled = false → now < consumption.entry.expiresAt →
        .revoked consumption.capability ∉ state.log ∧ state.closed = false ∧
          state.entries.size < config.maxRetainedBlobs
  | _ => True

instance decidableFair (config : Config) (state : AttachmentStore) (op : StoreOp) :
    Decidable (Fair config state op) := by
  cases op <;> unfold Fair <;> infer_instance

theorem honest_of_quiet {issued : OrderedMap Capability StoredEntry} {event : StoreEvent}
    (h : event.Quiet) : event.Honest issued := by
  cases event <;> first | exact False.elim h | trivial

namespace Flow

variable {config : Config} {state after : AttachmentStore}

theorem frame (h : Flow config state) {published swept : Nat} {handed disposals : List Nat}
    {disposed : Bool} :
    Flow config { state with published, swept, handed, disposals, disposed } :=
  ⟨h.retained, h.claimed, h.pending, h.single, h.unissued, h.order, h.honest, h.bounded, h.closed,
    h.disposed, h.ending, h.sweeps, h.times, h.waiting, h.busy⟩

theorem wait (h : Flow config state) {publishing : OrderedMap Nat Publishing}
    (hwaiting : ∀ id waiting, publishing.get? id = some waiting →
      waiting.entry.expiresAt ≤ maxSafeInteger.toNat) : Flow config { state with publishing } :=
  ⟨h.retained, h.claimed, h.pending, h.single, h.unissued, h.order, h.honest, h.bounded, h.closed,
    h.disposed, h.ending, h.sweeps, h.times, hwaiting, h.busy⟩

theorem queue (h : Flow config state) {sweep : Sweep}
    (hsweep : sweep.final = true → sweep.now = maxSafeInteger.toNat) :
    Flow config { state with sweeps := state.sweeps ++ [sweep] } := by
  refine ⟨h.retained, h.claimed, h.pending, h.single, h.unissued, h.order, h.honest, h.bounded,
    h.closed, h.disposed, ?_, ?_, h.times, h.waiting,
    fun _ heq => List.cons_ne_nil _ _ (List.append_eq_nil_iff.mp heq).2⟩
  · intro hsweeping next hnext hfinal
    cases hsweeps : state.sweeps with
    | nil => exact absurd hsweeps (h.busy hsweeping)
    | cons first rest =>
      replace hnext : next ∈ (state.sweeps ++ [sweep]).head? := hnext
      rw [hsweeps] at hnext
      exact h.ending hsweeping next (by rw [hsweeps]; exact hnext) hfinal
  · intro next hmem
    rcases List.mem_append.mp hmem with hold | hlast
    · exact h.sweeps next hold
    · cases List.mem_singleton.mp hlast
      exact hsweep

theorem shrink (h : Flow config state) {entries : OrderedMap Capability StoredEntry}
    {added : List StoreEvent}
    (hentries : ∀ capability entry, entries.get? capability = some entry →
      state.entries.get? capability = some entry ∧ ∀ event ∈ added, ¬ event.ends capability)
    (hsize : entries.size ≤ state.entries.size) (hquiet : ∀ event ∈ added, event.Quiet)
    (hpending : ∀ consumption ∈ state.consumptions, consumption.settled = false →
      .expired consumption.capability ∉ added)
    (hissued : ∀ capability, state.issued.get? capability = none → ∀ event ∈ added,
      ¬ event.ends capability)
    (hdisposed : .disposed ∉ added) :
    Flow config { state with entries, log := state.log ++ added } := by
  have hnone : ∀ capability, state.entries.get? capability = none →
      entries.get? capability = none := by
    intro capability hnone
    apply Option.eq_none_iff_forall_ne_some.mpr
    intro entry hget
    rw [(hentries capability entry hget).1] at hnone
    cases hnone
  constructor
  · intro capability entry hget
    obtain ⟨hold, hadded⟩ := hentries capability entry hget
    obtain ⟨hissued, hlog⟩ := h.retained capability entry hold
    exact ⟨hissued, fun event hmem => (List.mem_append.mp hmem).elim (hlog event) (hadded event)⟩
  · exact h.claimed
  · intro consumption hmem hsettled
    obtain ⟨hget, hcompleted, hexpired⟩ := h.pending consumption hmem hsettled
    refine ⟨hnone _ hget, fun hin => ?_, fun hin => ?_⟩
    · exact (List.mem_append.mp hin).elim hcompleted (hquiet _)
    · exact (List.mem_append.mp hin).elim hexpired (hpending consumption hmem hsettled)
  · exact h.single
  · intro capability hget event hmem hends
    rcases List.mem_append.mp hmem with hold | hnew
    · exact h.unissued capability hget event hold hends
    · exact absurd hends (hissued capability hget event hnew)
  · exact order_quiet h.order hquiet
  · intro event hmem
    rcases List.mem_append.mp hmem with hold | hnew
    · exact h.honest event hold
    · exact honest_of_quiet (hquiet event hnew)
  · exact Nat.le_trans hsize h.bounded
  · exact fun hclosed capability => hnone capability (h.closed hclosed capability)
  · exact fun hmem => h.disposed ((List.mem_append.mp hmem).resolve_right hdisposed)
  · exact h.ending
  · exact h.sweeps
  · exact h.times
  · exact h.waiting
  · exact h.busy

theorem release (h : Flow config state) (quota : Option Nat) :
    Flow config { state with log := state.log ++ releaseOf quota } :=
  h.shrink (fun capability _ hget => ⟨hget, fun _ hmem => ends_releaseOf hmem capability⟩)
    (Nat.le_refl _) quiet_releaseOf (fun _ _ _ hmem => ends_releaseOf hmem _ rfl)
    (fun capability _ _ hmem => ends_releaseOf hmem capability)
    fun hmem => ends_releaseOf hmem 0 trivial

theorem size_delete_le (m : OrderedMap Capability StoredEntry) (capability : Capability) :
    (m.delete capability).size ≤ m.size :=
  List.length_filter_le _ _

theorem remove (h : Flow config state) {capability : Capability} {entry : StoredEntry}
    {event : StoreEvent} (hget : state.entries.get? capability = some entry)
    (hquiet : event.Quiet) (hends : ∀ other, event.ends other → other = capability)
    (quota : Option Nat) :
    Flow config { state with
      entries := state.entries.delete capability
      log := state.log ++ event :: releaseOf quota } := by
  have hadded : ∀ added ∈ event :: releaseOf quota, ∀ other, added.ends other →
      other = capability := by
    intro added hmem other hother
    rcases List.mem_cons.mp hmem with rfl | hmem
    · exact hends other hother
    · exact absurd hother (ends_releaseOf hmem other)
  apply h.shrink
  · intro other held hother
    rw [OrderedMap.get?_delete] at hother
    split at hother
    · cases hother
    · rename_i hne
      exact ⟨hother, fun added hmem hend => hne (hadded added hmem other hend)⟩
  · exact size_delete_le _ _
  · intro added hmem
    rcases List.mem_cons.mp hmem with rfl | hmem
    · exact hquiet
    · exact quiet_releaseOf added hmem
  · intro consumption hmem hsettled hexpired
    have hnone := (h.pending consumption hmem hsettled).1
    rw [hadded _ hexpired _ rfl, hget] at hnone
    cases hnone
  · intro other hother added hmem hend
    rw [hadded added hmem other hend, (h.retained capability entry hget).1] at hother
    cases hother
  · intro hmem
    exact absurd ((hadded _ hmem (capability + 1) trivial)) (Nat.succ_ne_self _)

theorem expire (h : Flow config state) {capability : Capability} {entry : StoredEntry}
    (hget : state.entries.get? capability = some entry) :
    Flow config (state.expire capability entry) := by
  have hends : ∀ other, (StoreEvent.expired capability).ends other → other = capability :=
    fun _ heq => Eq.symm heq
  exact h.remove hget (show (StoreEvent.expired capability).Quiet from trivial) hends _

theorem requireEntry_ok {pairingId : PersonalPairingId} {capability : Capability}
    {entry : StoredEntry} (h : state.requireEntry pairingId capability = some entry) :
    state.entries.get? capability = some entry ∧ entry.pairingId = pairingId := by
  obtain ⟨hget, hpairing⟩ := Option.filter_eq_some_iff.mp h
  exact ⟨hget, of_decide_eq_true hpairing⟩

theorem observe (h : Flow config state) {event : StoreEvent} {capability : Capability}
    {entry : StoredEntry} {now : Nat} (hget : state.entries.get? capability = some entry)
    (hnow : now < entry.expiresAt)
    (hevent : event = .inspected capability entry.pairingId now entry.ciphertext ∨
      event = .claimed capability entry.pairingId now entry.ciphertext) :
    Flow config { state with log := state.log ++ [event] } := by
  obtain ⟨hissued, hlog⟩ := h.retained capability entry hget
  have haccess : ∀ other, event.accesses other → other = capability := by
    rcases hevent with rfl | rfl <;> exact fun _ heq => Eq.symm heq
  have hplain : (∀ other, ¬ event.ends other) ∧ ∀ other, event ≠ .completed other := by
    rcases hevent with rfl | rfl <;> exact ⟨fun _ => id, fun _ => nofun⟩
  have hhonest : event.Honest state.issued := by
    rcases hevent with rfl | rfl <;> exact ⟨entry, hissued, rfl, hnow, rfl⟩
  have hmem : ∀ {added}, added ∈ state.log ++ [event] → added ∈ state.log ∨ added = event :=
    fun hmem => (List.mem_append.mp hmem).imp_right List.mem_singleton.mp
  constructor
  · intro other held hother
    obtain ⟨hkept, hheld⟩ := h.retained other held hother
    refine ⟨hkept, fun added hadded => ?_⟩
    rcases hmem hadded with hold | rfl
    · exact hheld added hold
    · exact hplain.1 other
  · exact h.claimed
  · intro consumption hconsumption hsettled
    obtain ⟨hnone, hcompleted, hexpired⟩ := h.pending consumption hconsumption hsettled
    refine ⟨hnone, fun hin => ?_, fun hin => ?_⟩
    · exact (hmem hin).elim hcompleted fun heq => hplain.2 _ heq.symm
    · exact (hmem hin).elim hexpired fun heq => hplain.1 consumption.capability (heq ▸ rfl)
  · exact h.single
  · intro other hother added hadded hends
    rcases hmem hadded with hold | rfl
    · exact h.unissued other hother added hold hends
    · exact absurd hends (hplain.1 other)
  · apply order_snoc h.order
    intro earlier hearlier
    refine ⟨fun other hends hother => ?_, fun other _ => hplain.2 other⟩
    exact hlog earlier hearlier (haccess other hother ▸ hends)
  · intro added hadded
    rcases hmem hadded with hold | rfl
    · exact h.honest added hold
    · exact hhonest
  · exact h.bounded
  · exact h.closed
  · intro hin
    rcases hmem hin with hold | heq
    · exact h.disposed hold
    · exact absurd (heq ▸ trivial) (hplain.1 0)
  · exact h.ending
  · exact h.sweeps
  · exact h.times
  · exact h.waiting
  · exact h.busy

theorem inspect (h : Flow config state) (pairingId : PersonalPairingId) (capability : Capability)
    (now : Nat) : Flow config (state.inspect pairingId capability now) := by
  unfold AttachmentStore.inspect
  split
  · exact h
  · rename_i entry hentry
    obtain ⟨hget, hpairing⟩ := requireEntry_ok hentry
    split
    · exact h.expire hget
    · rename_i hnow
      rw [← hpairing]
      exact h.observe hget (Nat.not_le.mp hnow) (.inl rfl)

theorem claim (h : Flow config state) {capability : Capability} {entry : StoredEntry}
    (hget : state.entries.get? capability = some entry) :
    Flow config { state with
      entries := state.entries.delete capability
      consumptions := state.consumptions ++ [⟨capability, entry, false⟩] } := by
  obtain ⟨hissued, hlog⟩ := h.retained capability entry hget
  have hold : ∀ other held, (state.entries.delete capability).get? other = some held →
      state.entries.get? other = some held := by
    intro other held hother
    rw [OrderedMap.get?_delete] at hother
    split at hother
    · cases hother
    · exact hother
  have hnone : ∀ other, state.entries.get? other = none →
      (state.entries.delete capability).get? other = none := by
    intro other hother
    rw [OrderedMap.get?_delete]
    split
    · rfl
    · exact hother
  constructor
  · exact fun other held hother => h.retained other held (hold other held hother)
  · intro consumption hmem
    rcases List.mem_append.mp hmem with hin | hlast
    · exact h.claimed consumption hin
    · cases List.mem_singleton.mp hlast
      exact hissued
  · intro consumption hmem hsettled
    rcases List.mem_append.mp hmem with hin | hlast
    · obtain ⟨hget', hrest⟩ := h.pending consumption hin hsettled
      exact ⟨hnone _ hget', hrest⟩
    · cases List.mem_singleton.mp hlast
      refine ⟨?_, fun hin => hlog _ hin rfl, fun hin => hlog _ hin rfl⟩
      rw [OrderedMap.get?_delete, if_pos rfl]
  · intro other
    rw [List.countP_append]
    by_cases heq : capability = other
    · have hzero : state.consumptions.countP (·.pending other) = 0 := by
        apply List.countP_eq_zero.mpr
        intro consumption hmem hpending
        simp only [Consumption.pending, Bool.and_eq_true, Bool.not_eq_true', decide_eq_true_eq] at hpending
        have := (h.pending consumption hmem hpending.1).1
        rw [hpending.2, ← heq, hget] at this
        cases this
      rw [hzero, Nat.zero_add]
      exact List.countP_le_length
    · have hlast : [(⟨capability, entry, false⟩ : Consumption)].countP (·.pending other) = 0 := by
        apply List.countP_eq_zero.mpr
        intro consumption hmem hpending
        cases List.mem_singleton.mp hmem
        simp only [Consumption.pending, Bool.and_eq_true, decide_eq_true_eq] at hpending
        exact heq hpending.2
      rw [hlast]
      exact h.single other
  · exact h.unissued
  · exact h.order
  · exact h.honest
  · exact Nat.le_trans (size_delete_le _ _) h.bounded
  · exact fun hclosed other => hnone other (h.closed hclosed other)
  · exact h.disposed
  · exact h.ending
  · exact h.sweeps
  · exact h.times
  · exact h.waiting
  · exact h.busy

theorem consume (h : Flow config state) (pairingId : PersonalPairingId) (capability : Capability)
    (now : Nat) : Flow config (state.consume pairingId capability now) := by
  unfold AttachmentStore.consume
  split
  · exact h
  · rename_i entry hentry
    obtain ⟨hget, hpairing⟩ := requireEntry_ok hentry
    split
    · exact h.expire hget
    · rename_i hnow
      rw [← hpairing]
      exact (h.observe hget (Nat.not_le.mp hnow) (.inr rfl)).claim hget

theorem split_consumptions {consumptions : List Consumption} {index : Nat} {consumption : Consumption}
    (h : consumptions[index]? = some consumption) (settled : Consumption) : ∃ front back,
      consumptions = front ++ consumption :: back ∧
        consumptions.set index settled = front ++ settled :: back := by
  obtain ⟨hlt, heq⟩ := List.getElem?_eq_some_iff.mp h
  refine ⟨consumptions.take index, consumptions.drop (index + 1), ?_, ?_⟩
  · rw [← heq, ← List.drop_eq_getElem_cons hlt, List.take_append_drop]
  · rw [List.set_eq_take_append_cons_drop, if_pos hlt]

theorem countP_settle {index : Nat} {consumption : Consumption}
    (hget : state.consumptions[index]? = some consumption) (hsettled : consumption.settled = false)
    (capability : Capability) :
    (state.settle index consumption).consumptions.countP (·.pending capability) +
        (if consumption.capability = capability then 1 else 0) =
      state.consumptions.countP (·.pending capability) := by
  obtain ⟨front, back, hall, hset⟩ :=
    split_consumptions hget { consumption with settled := true }
  rw [AttachmentStore.settle]
  dsimp only
  rw [hset, hall, List.countP_append, List.countP_append, List.countP_cons, List.countP_cons]
  simp [Consumption.pending, hsettled]
  omega

theorem settle (h : Flow config state) {index : Nat} {consumption : Consumption}
    (hget : state.consumptions[index]? = some consumption) (hsettled : consumption.settled = false) :
    Flow config (state.settle index consumption) ∧
      ∀ other ∈ (state.settle index consumption).consumptions, other.settled = false →
        other.capability ≠ consumption.capability := by
  have hmem := List.mem_of_getElem? hget
  have hset : ∀ other ∈ (state.settle index consumption).consumptions, other.settled = false →
      other ∈ state.consumptions := by
    intro other hother hopen
    rcases List.mem_or_eq_of_mem_set hother with hold | rfl
    · exact hold
    · cases hopen
  constructor
  · refine ⟨h.retained, ?_, ?_, ?_, h.unissued, h.order, h.honest, h.bounded, h.closed, h.disposed,
      h.ending, h.sweeps, h.times, h.waiting, h.busy⟩
    · intro other hother
      rcases List.mem_or_eq_of_mem_set hother with hold | rfl
      · exact h.claimed other hold
      · exact h.claimed consumption hmem
    · exact fun other hother hopen => h.pending other (hset other hother hopen) hopen
    · intro capability
      have hcount := countP_settle hget hsettled capability
      have hsingle := h.single capability
      omega
  · intro other hother hopen heq
    have hcount := countP_settle hget hsettled consumption.capability
    have hsingle := h.single consumption.capability
    rw [if_pos rfl] at hcount
    have hpos : 0 < (state.settle index consumption).consumptions.countP
        (·.pending consumption.capability) := by
      apply List.countP_pos_iff.mpr
      exact ⟨other, hother, by simp [Consumption.pending, hopen, heq]⟩
    omega

theorem complete (h : Flow config state) {index : Nat}
    (hstep : state.complete index = some after) : Flow config after := by
  unfold AttachmentStore.complete at hstep
  split at hstep
  · cases hstep
  · rename_i consumption hget
    split at hstep
    · cases hstep
      exact h
    · rename_i hopen
      have hopen := Bool.eq_false_iff.mpr hopen
      cases hstep
      obtain ⟨hnone, hcompleted, -⟩ := h.pending consumption (List.mem_of_getElem? hget) hopen
      have hissued := h.claimed consumption (List.mem_of_getElem? hget)
      obtain ⟨hsettled, hother⟩ := h.settle hget hopen
      have hlogged : Flow config { state.settle index consumption with
          log := state.log ++ [.completed consumption.capability] } := by
        have hmem : ∀ {event}, event ∈ state.log ++ [.completed consumption.capability] →
            event ∈ state.log ∨ event = .completed consumption.capability :=
          fun hmem => (List.mem_append.mp hmem).imp_right List.mem_singleton.mp
        refine ⟨?_, hsettled.claimed, ?_, hsettled.single, ?_, ?_, ?_, h.bounded, h.closed, ?_,
          h.ending, h.sweeps, h.times, h.waiting, h.busy⟩
        · intro capability entry hentry
          replace hentry : state.entries.get? capability = some entry := hentry
          obtain ⟨hheld, hlog⟩ := h.retained capability entry hentry
          refine ⟨hheld, fun event hevent => ?_⟩
          rcases hmem hevent with hold | rfl
          · exact hlog event hold
          · rintro rfl
            rw [hnone] at hentry
            cases hentry
        · intro other hin hunsettled
          obtain ⟨hget', hcompleted', hexpired'⟩ := hsettled.pending other hin hunsettled
          refine ⟨hget', fun hevent => ?_, fun hevent => ?_⟩
          · rcases hmem hevent with hold | heq
            · exact hcompleted' hold
            · exact hother other hin hunsettled (StoreEvent.completed.inj heq)
          · rcases hmem hevent with hold | heq
            · exact hexpired' hold
            · cases heq
        · intro capability hnone' event hevent hends
          replace hnone' : state.issued.get? capability = none := hnone'
          rcases hmem hevent with hold | rfl
          · exact h.unissued capability hnone' event hold hends
          · cases hends
            rw [hissued] at hnone'
            cases hnone'
        · apply order_snoc h.order
          refine fun earlier hearlier => ⟨fun _ _ => id, fun capability heq heq' => ?_⟩
          cases heq'
          exact hcompleted (heq ▸ hearlier)
        · intro event hevent
          rcases hmem hevent with hold | rfl
          · exact h.honest event hold
          · trivial
        · intro hevent
          rcases hmem hevent with hold | heq
          · exact h.disposed hold
          · cases heq
      have hreleased := hlogged.release consumption.entry.quota
      rw [List.append_assoc] at hreleased
      exact hreleased

theorem put (h : Flow config state) {capability : Capability} {entry : StoredEntry}
    (hopen : state.closed = false) (hsize : state.entries.size < config.maxRetainedBlobs)
    (hissued : state.issued.get? capability = some entry)
    (hlog : ∀ event ∈ state.log, ¬ event.ends capability)
    (hpending : ∀ consumption ∈ state.consumptions, consumption.settled = false →
      consumption.capability ≠ capability) :
    Flow config { state with entries := state.entries.set capability entry } := by
  have hget : ∀ {other held}, (state.entries.set capability entry).get? other = some held →
      other = capability ∧ held = entry ∨ state.entries.get? other = some held := by
    intro other held hother
    exact (OrderedMap.of_get?_set hother).imp_right And.right
  refine ⟨?_, h.claimed, ?_, h.single, h.unissued, h.order, h.honest, ?_, ?_, h.disposed, h.ending,
    h.sweeps, h.times, h.waiting, h.busy⟩
  · intro other held hother
    rcases hget hother with ⟨rfl, rfl⟩ | hold
    · exact ⟨hissued, hlog⟩
    · exact h.retained other held hold
  · intro consumption hmem hsettled
    obtain ⟨hnone, hrest⟩ := h.pending consumption hmem hsettled
    refine ⟨?_, hrest⟩
    rw [OrderedMap.get?_set, if_neg (hpending consumption hmem hsettled), hnone]
  · have hgrown : (state.entries.set capability entry).size ≤ state.entries.size + 1 := by
      rw [OrderedMap.size, OrderedMap.size, ← @List.length_map _ _ _ Prod.fst,
        ← @List.length_map _ _ state.entries.entries Prod.fst]
      by_cases hmem : capability ∈ state.entries.keys
      · exact Nat.le_succ_of_le (Nat.le_of_eq (congrArg List.length
          (OrderedMap.keys_set_of_mem hmem entry)))
      · exact Nat.le_of_eq ((congrArg List.length (OrderedMap.keys_set_new hmem entry)).trans
          (List.length_append ..))
    exact Nat.le_trans hgrown hsize
  · intro hclosed
    rw [hopen] at hclosed
    cases hclosed

theorem publish (h : Flow config state) (pairingId : PersonalPairingId) (ciphertext : List UInt8)
    {now : Nat} (lease : Option Int)
    (hnow : now + config.capabilityLifetimeMs ≤ maxSafeInteger.toNat) :
    Flow config (state.publish config pairingId ciphertext now lease) := by
  unfold AttachmentStore.publish
  dsimp only
  split
  · exact (h.release _).frame
  · have hplain : (⟨now, false⟩ : Sweep).final = true →
        (⟨now, false⟩ : Sweep).now = maxSafeInteger.toNat := nofun
    apply Flow.wait (h.queue hplain).frame
    intro id waiting hget
    rw [OrderedMap.get?_set] at hget
    split at hget
    · cases hget
      exact hnow
    · exact h.waiting id waiting hget

theorem issue (h : Flow config state) {capability : Capability}
    {entry : StoredEntry} (hfresh : state.issued.get? capability = none)
    (htime : entry.expiresAt ≤ maxSafeInteger.toNat) :
    Flow config { state with issued := state.issued.set capability entry } := by
  have hold : ∀ {other held}, state.issued.get? other = some held →
      (state.issued.set capability entry).get? other = some held := by
    intro other held hget
    rw [OrderedMap.get?_set, if_neg, hget]
    rintro rfl
    rw [hfresh] at hget
    cases hget
  refine ⟨?_, fun consumption hmem => hold (h.claimed consumption hmem), h.pending, h.single, ?_,
    h.order, ?_, h.bounded, h.closed, h.disposed, h.ending, h.sweeps, ?_, h.waiting, h.busy⟩
  · intro other held hget
    obtain ⟨hissued, hlog⟩ := h.retained other held hget
    exact ⟨hold hissued, hlog⟩
  · intro other hnone
    rw [OrderedMap.get?_set] at hnone
    split at hnone
    · cases hnone
    · exact h.unissued other hnone
  · intro event hmem
    have hhonest := h.honest event hmem
    cases event with
    | inspected => exact hhonest.imp fun _ hfacts => ⟨hold hfacts.1, hfacts.2⟩
    | claimed => exact hhonest.imp fun _ hfacts => ⟨hold hfacts.1, hfacts.2⟩
    | _ => trivial
  · intro other held hget
    rw [OrderedMap.get?_set] at hget
    split at hget
    · cases hget
      exact htime
    · exact h.times other held hget

theorem publishOn (h : Flow config state) {id : Nat} {capability : Capability}
    (hopen : state.closed = false) (hstep : state.publishOn config id capability = some after) :
    Flow config after := by
  unfold AttachmentStore.publishOn at hstep
  split at hstep
  · cases hstep
  · rename_i waiting hwaiting
    have hrest : ∀ other left, (state.publishing.delete id).get? other = some left →
        left.entry.expiresAt ≤ maxSafeInteger.toNat := by
      intro other left hget
      rw [OrderedMap.get?_delete] at hget
      split at hget
      · cases hget
      · exact h.waiting other left hget
    split at hstep
    · cases hstep
    · rename_i hready
      have hfresh : state.issued.get? capability = none :=
        OrderedMap.get?_eq_none_of_notMem fun hmem =>
          hready (.inr (OrderedMap.has_iff.mpr hmem))
      dsimp only at hstep
      split at hstep
      · cases hstep
        exact (h.release waiting.entry.quota).wait hrest
      · rename_i hsize
        cases hstep
        have hissued := (h.issue hfresh (h.waiting id waiting hwaiting)).wait hrest
        apply hissued.put hopen (Nat.not_le.mp hsize)
        · exact (OrderedMap.get?_set ..).trans (if_pos rfl)
        · intro event hmem hends
          have hdisposed := h.unissued capability hfresh event hmem hends
          rw [h.disposed (hdisposed ▸ hmem)] at hopen
          cases hopen
        · rintro consumption hmem - rfl
          rw [h.claimed consumption hmem] at hfresh
          cases hfresh

theorem abandon (h : Flow config state) {index now : Nat}
    (hguard : ∀ consumption ∈ state.consumptions[index]?, consumption.settled = false →
      now < consumption.entry.expiresAt → .revoked consumption.capability ∉ state.log ∧
        state.closed = false ∧ state.entries.size < config.maxRetainedBlobs)
    (hstep : state.abandon index now = some after) : Flow config after := by
  unfold AttachmentStore.abandon at hstep
  split at hstep
  · cases hstep
  · rename_i consumption hget
    have hmem := List.mem_of_getElem? hget
    split at hstep
    · cases hstep
      exact h
    · rename_i hopen
      have hopen := Bool.eq_false_iff.mpr hopen
      obtain ⟨hnone, hcompleted, hexpired⟩ := h.pending consumption hmem hopen
      have hissued := h.claimed consumption hmem
      obtain ⟨hsettled, hother⟩ := h.settle hget hopen
      split at hstep
      · rename_i hnow
        cases hstep
        obtain ⟨hrevoked, hclosed, hsize⟩ := hguard consumption hget hopen hnow
        apply hsettled.put hclosed hsize hissued
        · intro event hevent hends
          cases event with
          | completed => exact hcompleted (hends ▸ hevent)
          | revoked => exact hrevoked (hends ▸ hevent)
          | expired => exact hexpired (hends ▸ hevent)
          | disposed =>
            rw [h.disposed hevent] at hclosed
            cases hclosed
          | inspected => exact hends
          | claimed => exact hends
          | released => exact hends
        · exact hother
      · cases hstep
        have hadded : ∀ added ∈ .expired consumption.capability :: releaseOf consumption.entry.quota,
            added.Quiet ∧ ∀ other, added.ends other → other = consumption.capability := by
          intro added hin
          rcases List.mem_cons.mp hin with rfl | hin
          · exact ⟨trivial, fun _ heq => Eq.symm heq⟩
          · exact ⟨quiet_releaseOf added hin, fun other hends =>
              absurd hends (ends_releaseOf hin other)⟩
        apply hsettled.shrink
        · intro other entry hentry
          refine ⟨hentry, fun added hin hends => ?_⟩
          replace hentry : state.entries.get? other = some entry := hentry
          rw [(hadded added hin).2 other hends, hnone] at hentry
          cases hentry
        · exact Nat.le_refl _
        · exact fun added hin => (hadded added hin).1
        · exact fun other hin hunsettled hevent =>
            hother other hin hunsettled ((hadded _ hevent).2 _ rfl)
        · intro other hnone' added hin hends
          replace hnone' : state.issued.get? other = none := hnone'
          rw [(hadded added hin).2 other hends, hissued] at hnone'
          cases hnone'
        · exact fun hin => absurd ((hadded _ hin).2 (consumption.capability + 1) trivial)
            (Nat.succ_ne_self _)

theorem mem_revocation {pairingId : PersonalPairingId} {capability : Capability} {event : StoreEvent}
    (h : event ∈ state.revocation pairingId capability) :
    event = .revoked capability ∧ ∃ entry, state.issued.get? capability = some entry := by
  unfold AttachmentStore.revocation at h
  split at h
  · rename_i hany
    cases hget : state.issued.get? capability with
    | none =>
      rw [hget] at hany
      cases hany
    | some entry => exact ⟨List.mem_singleton.mp h, entry, rfl⟩
  · cases h

theorem revoke (h : Flow config state) (pairingId : PersonalPairingId) (capability : Capability) :
    Flow config (state.revoke pairingId capability) := by
  have hquiet : ∀ event ∈ state.revocation pairingId capability, event.Quiet := fun event hmem =>
    (mem_revocation hmem).1 ▸ trivial
  have hends : ∀ event ∈ state.revocation pairingId capability, ∀ other, event.ends other →
      other = capability := by
    intro event hmem other hother
    rw [(mem_revocation hmem).1] at hother
    exact Eq.symm hother
  have hissued : ∀ other, state.issued.get? other = none →
      ∀ event ∈ state.revocation pairingId capability, ¬ event.ends other := by
    intro other hnone event hmem hother
    obtain ⟨-, entry, hget⟩ := mem_revocation hmem
    rw [hends event hmem other hother, hget] at hnone
    cases hnone
  unfold AttachmentStore.revoke
  split
  · rename_i hnone
    apply h.shrink
    · intro other entry hget
      refine ⟨hget, fun event hmem hother => ?_⟩
      rw [hends event hmem other hother, hnone] at hget
      cases hget
    · exact Nat.le_refl _
    · exact hquiet
    · exact fun _ _ _ hmem => nomatch (mem_revocation hmem).1
    · exact hissued
    · exact fun hmem => nomatch (mem_revocation hmem).1
  · rename_i entry hget
    split
    · exact h
    · refine Flow.release (h.shrink ?_ (size_delete_le _ _) hquiet
        (fun _ _ _ hmem => nomatch (mem_revocation hmem).1) hissued
        fun hmem => nomatch (mem_revocation hmem).1) entry.quota
      intro other held hother
      rw [OrderedMap.get?_delete] at hother
      split at hother
      · cases hother
      · rename_i hne
        exact ⟨hother, fun event hmem hend => hne (hends event hmem other hend)⟩

/-- What a sweep tells: the expired entries, and the reservations they held. -/
def sweepEvents (entries : OrderedMap Capability StoredEntry) (now : Nat) : List StoreEvent :=
  (entries.entries.filter fun entry => decide (entry.2.expiresAt ≤ now)).map
      (fun entry => .expired entry.1) ++
    (entries.entries.filter fun entry => decide (entry.2.expiresAt ≤ now)).flatMap
      fun entry => releaseOf entry.2.quota

theorem mem_sweep_events (entries : OrderedMap Capability StoredEntry) (now : Nat) :
    ∀ event ∈ sweepEvents entries now, event.Quiet ∧ ∀ capability, event.ends capability →
      ∃ entry, entries.get? capability = some entry ∧ entry.expiresAt ≤ now := by
  intro event hmem
  rcases List.mem_append.mp hmem with hexpired | hreleased
  · obtain ⟨⟨capability, entry⟩, hentry, rfl⟩ := List.mem_map.mp hexpired
    obtain ⟨hentry, hnow⟩ := List.mem_filter.mp hentry
    refine ⟨trivial, ?_⟩
    rintro other rfl
    exact ⟨entry, OrderedMap.mem_entries_iff.mp hentry, of_decide_eq_true hnow⟩
  · obtain ⟨entry, -, hrelease⟩ := List.mem_flatMap.mp hreleased
    exact ⟨quiet_releaseOf event hrelease, fun capability hends =>
      absurd hends (ends_releaseOf hrelease capability)⟩

theorem sweep (h : Flow config state) (hstep : state.sweep = some after) : Flow config after := by
  unfold AttachmentStore.sweep at hstep
  split at hstep
  · cases hstep
  · rename_i next rest hsweeps
    split at hstep
    · cases hstep
    · cases hstep
      have hkept : ∀ other entry, (state.entries.filter fun _ entry =>
          !decide (entry.expiresAt ≤ next.now)).get? other = some entry →
            state.entries.get? other = some entry ∧ next.now < entry.expiresAt := by
        intro other entry hget
        rw [OrderedMap.get?_filter] at hget
        obtain ⟨hget, hkeep⟩ := Option.filter_eq_some_iff.mp hget
        exact ⟨hget, by simpa using hkeep⟩
      have hadded := mem_sweep_events state.entries next.now
      have hshrunk : Flow config { state with
          entries := state.entries.filter fun _ entry => !decide (entry.expiresAt ≤ next.now)
          log := state.log ++ sweepEvents state.entries next.now } := by
        apply h.shrink
        · intro other entry hget
          obtain ⟨hold, hlater⟩ := hkept other entry hget
          refine ⟨hold, fun event hmem hends => ?_⟩
          obtain ⟨held, hheld, hnow⟩ := (hadded event hmem).2 other hends
          rw [hold] at hheld
          cases hheld
          exact absurd hlater (Nat.not_lt.mpr hnow)
        · exact List.length_filter_le _ _
        · exact fun event hmem => (hadded event hmem).1
        · intro consumption hmem hsettled hevent
          obtain ⟨held, hheld, -⟩ := (hadded _ hevent).2 _ rfl
          rw [(h.pending consumption hmem hsettled).1] at hheld
          cases hheld
        · intro other hnone event hmem hends
          obtain ⟨held, hheld, -⟩ := (hadded event hmem).2 other hends
          rw [(h.retained other held hheld).1] at hnone
          cases hnone
        · intro hmem
          rcases List.mem_append.mp hmem with hexpired | hreleased
          · obtain ⟨entry, -, heq⟩ := List.mem_map.mp hexpired
            cases heq
          · obtain ⟨entry, -, hrelease⟩ := List.mem_flatMap.mp hreleased
            exact ends_releaseOf hrelease 0 trivial
      rw [List.append_assoc]
      refine ⟨hshrunk.retained, hshrunk.claimed, hshrunk.pending, hshrunk.single, hshrunk.unissued,
        hshrunk.order, hshrunk.honest, hshrunk.bounded, ?_, ?_, ?_, h.sweeps, h.times, h.waiting, ?_⟩
      · intro hclosed capability
        rcases (Bool.or_eq_true _ _).mp hclosed with hold | hfinal
        · exact hshrunk.closed hold capability
        · apply Option.eq_none_iff_forall_ne_some.mpr
          intro entry hget
          obtain ⟨hheld, hlater⟩ := hkept capability entry hget
          have htime := h.times capability entry (h.retained capability entry hheld).1
          rw [h.sweeps next (hsweeps ▸ List.mem_cons_self) hfinal] at hlater
          exact absurd hlater (Nat.not_lt.mpr htime)
      · exact fun hmem => (Bool.or_eq_true _ _).mpr (.inl (hshrunk.disposed hmem))
      · intro _ head hhead hfinal
        replace hhead : head ∈ state.sweeps.head? := hhead
        rw [hsweeps] at hhead
        cases hhead
        exact (Bool.or_eq_true _ _).mpr (.inr hfinal)
      · exact fun _ hnil => List.cons_ne_nil _ _ (hsweeps.symm.trans hnil)

theorem sweepOn (h : Flow config state) (hstep : state.sweepOn = some after) :
    Flow config after := by
  unfold AttachmentStore.sweepOn at hstep
  split at hstep
  · cases hstep
  · rename_i done rest hsweeps
    split at hstep
    · cases hstep
    · rename_i hsweeping
      have hsweeping : state.sweeping = true := Bool.not_eq_false _ ▸ hsweeping
      cases hstep
      have hended : ∀ event ∈ (if done.final = true then [.disposed] else [] : List StoreEvent),
          event = .disposed ∧ state.closed = true := by
        intro event hmem
        split at hmem
        · rename_i hfinal
          exact ⟨List.mem_singleton.mp hmem,
            h.ending hsweeping done (by rw [hsweeps]; rfl) hfinal⟩
        · cases hmem
      refine ⟨?_, h.claimed, ?_, h.single, ?_, ?_, ?_, h.bounded, h.closed, ?_, nofun, ?_, h.times,
        h.waiting, nofun⟩
      · intro capability entry hget
        obtain ⟨hissued, hlog⟩ := h.retained capability entry hget
        refine ⟨hissued, fun event hmem => ?_⟩
        rcases List.mem_append.mp hmem with hold | hnew
        · exact hlog event hold
        · have hnone := h.closed (hended event hnew).2 capability
          replace hget : state.entries.get? capability = some entry := hget
          rw [hget] at hnone
          cases hnone
      · intro consumption hmem hsettled
        obtain ⟨hget, hcompleted, hexpired⟩ := h.pending consumption hmem hsettled
        refine ⟨hget, fun hin => ?_, fun hin => ?_⟩
        · exact (List.mem_append.mp hin).elim hcompleted fun hnew => nomatch (hended _ hnew).1
        · exact (List.mem_append.mp hin).elim hexpired fun hnew => nomatch (hended _ hnew).1
      · intro capability hnone event hmem hends
        rcases List.mem_append.mp hmem with hold | hnew
        · exact h.unissued capability hnone event hold hends
        · exact (hended event hnew).1
      · exact order_quiet h.order fun event hmem => (hended event hmem).1 ▸ trivial
      · intro event hmem
        rcases List.mem_append.mp hmem with hold | hnew
        · exact h.honest event hold
        · rw [(hended event hnew).1]
          trivial
      · intro hmem
        exact (List.mem_append.mp hmem).elim h.disposed fun hnew => (hended _ hnew).2
      · exact fun sweep hmem => h.sweeps sweep (hsweeps ▸ List.mem_cons_of_mem _ hmem)

theorem disposeOn (h : Flow config state) {index : Nat}
    (hstep : state.disposeOn index = some after) : Flow config after := by
  unfold AttachmentStore.disposeOn at hstep
  split at hstep
  · cases hstep
  · split at hstep
    · cases hstep
    · cases hstep
      have hlast : (⟨maxSafeInteger.toNat, true⟩ : Sweep).final = true →
          (⟨maxSafeInteger.toNat, true⟩ : Sweep).now = maxSafeInteger.toNat := fun _ => rfl
      exact (h.queue hlast).frame

theorem step (h : Flow config state) (op : StoreOp) (hguard : Fair config state op)
    (hstep : state.step config op = some after) : Flow config after := by
  cases op with
  | publish pairingId ciphertext now lease =>
    cases hstep
    exact h.publish pairingId ciphertext lease hguard
  | publishOn id capability => exact h.publishOn hguard hstep
  | inspect pairingId capability now =>
    cases hstep
    exact h.inspect pairingId capability now
  | consume pairingId capability now =>
    cases hstep
    exact h.consume pairingId capability now
  | complete index => exact h.complete hstep
  | abandon index now => exact h.abandon hguard hstep
  | revoke pairingId capability =>
    cases hstep
    exact h.revoke pairingId capability
  | tick now =>
    simp only [AttachmentStore.step] at hstep
    split at hstep
    · cases hstep
    · cases hstep
      have hplain : (⟨now, false⟩ : Sweep).final = true →
          (⟨now, false⟩ : Sweep).now = maxSafeInteger.toNat := nofun
      exact h.queue hplain
  | sweep => exact h.sweep hstep
  | sweepOn => exact h.sweepOn hstep
  | dispose =>
    cases hstep
    exact h.frame
  | disposeOn index => exact h.disposeOn hstep

theorem empty (config : Config) : Flow config .empty where
  retained := fun _ _ hget => nomatch hget
  claimed := fun _ hmem => absurd hmem List.not_mem_nil
  pending := fun _ hmem => absurd hmem List.not_mem_nil
  single := fun _ => Nat.zero_le _
  unissued := fun _ _ _ hmem => absurd hmem List.not_mem_nil
  order := .nil
  honest := fun _ hmem => absurd hmem List.not_mem_nil
  bounded := Nat.zero_le _
  closed := nofun
  disposed := fun hmem => absurd hmem List.not_mem_nil
  ending := nofun
  sweeps := fun _ hmem => absurd hmem List.not_mem_nil
  times := fun _ _ hget => nomatch hget
  waiting := fun _ _ hget => nomatch hget
  busy := nofun

end Flow

def StoredEntry.holds (id : Nat) (entry : StoredEntry) : Bool :=
  decide (entry.quota = some id)

def Consumption.holds (id : Nat) (consumption : Consumption) : Bool :=
  !consumption.settled && consumption.entry.holds id

def AttachmentStore.holders (state : AttachmentStore) (id : Nat) : Nat :=
  state.publishing.values.countP (fun waiting => waiting.entry.holds id) +
    state.entries.values.countP (·.holds id) + state.consumptions.countP (·.holds id)

def AttachmentStore.releases (state : AttachmentStore) (id : Nat) : Nat :=
  state.log.count (.released id)

/-- A reservation that was handed over has one holder or has been released, once. -/
structure Accounted (state : AttachmentStore) : Prop where
  shares : ∀ id, state.holders id + state.releases id = if id ∈ state.handed then 1 else 0
  handed : ∀ id ∈ state.handed, id < state.published
  published : ∀ id waiting, state.publishing.get? id = some waiting → id < state.published

def released (id : Nat) (added : List StoreEvent) : Nat :=
  added.count (.released id)

theorem released_releaseOf (id : Nat) (entry : StoredEntry) :
    released id (releaseOf entry.quota) = [entry].countP (·.holds id) := by
  unfold released releaseOf
  rw [List.countP_singleton]
  cases hquota : entry.quota with
  | none => simp [StoredEntry.holds, hquota]
  | some quota =>
    by_cases heq : quota = id
    · simp [StoredEntry.holds, hquota, heq]
    · simp [StoredEntry.holds, hquota, heq]

theorem released_cons {id : Nat} {event : StoreEvent} {added : List StoreEvent}
    (h : event ≠ .released id) : released id (event :: added) = released id added :=
  List.count_cons_of_ne h

theorem released_flatMap (id : Nat) (expired : List (Capability × StoredEntry)) :
    released id (expired.flatMap fun entry => releaseOf entry.2.quota) =
      (expired.map Prod.snd).countP (·.holds id) := by
  induction expired with
  | nil => rfl
  | cons entry rest ih =>
    rw [List.flatMap_cons, released, List.count_append, List.map_cons, ← List.singleton_append,
      List.countP_append]
    exact congrArg₂ (· + ·) (released_releaseOf id entry.2) ih

namespace Accounted

variable {config : Config} {state after : AttachmentStore}

theorem of_shares (h : Accounted state) (hhanded : after.handed = state.handed)
    (hpublished : after.published = state.published)
    (hpublishing : ∀ id waiting, after.publishing.get? id = some waiting →
      ∃ old, state.publishing.get? id = some old)
    (hshares : ∀ id, after.holders id + after.releases id = state.holders id + state.releases id) :
    Accounted after where
  shares := fun id => by rw [hshares, hhanded, h.shares]
  handed := fun id hmem => hpublished ▸ h.handed id (hhanded ▸ hmem)
  published := by
    intro id waiting hget
    obtain ⟨old, hold⟩ := hpublishing id waiting hget
    exact hpublished ▸ h.published id old hold

theorem countP_entry (entry : StoredEntry) (id : Nat) :
    (some entry).toList.countP (·.holds id) = [entry].countP (·.holds id) := rfl

theorem drop (h : Accounted state) {capability : Capability} {entry : StoredEntry}
    (hget : state.entries.get? capability = some entry) (events : List StoreEvent)
    (hevents : ∀ id, released id events = 0) :
    Accounted { state with
      entries := state.entries.delete capability
      log := state.log ++ events ++ releaseOf entry.quota } := by
  refine h.of_shares rfl rfl (fun _ waiting hwaiting => ⟨waiting, hwaiting⟩) fun id => ?_
  have hcount := OrderedMap.countP_values_delete state.entries capability (·.holds id)
  have hrelease := released_releaseOf id entry
  have hnone := hevents id
  rw [hget, countP_entry] at hcount
  unfold AttachmentStore.holders AttachmentStore.releases
  unfold released at hrelease hnone
  dsimp only
  rw [List.count_append, List.count_append, hrelease, hnone]
  omega

theorem log_quiet (h : Accounted state) {events : List StoreEvent}
    (hevents : ∀ id, released id events = 0) :
    Accounted { state with log := state.log ++ events } := by
  refine h.of_shares rfl rfl (fun _ waiting hwaiting => ⟨waiting, hwaiting⟩) fun id => ?_
  have hnone := hevents id
  unfold AttachmentStore.holders AttachmentStore.releases
  unfold released at hnone
  dsimp only
  rw [List.count_append, hnone]
  rfl

theorem expire (h : Accounted state) {capability : Capability} {entry : StoredEntry}
    (hget : state.entries.get? capability = some entry) :
    Accounted (state.expire capability entry) := by
  have hdropped := h.drop hget [.expired capability] fun _ => rfl
  rw [List.append_assoc] at hdropped
  exact hdropped

theorem claim (h : Accounted state) {capability : Capability} {entry : StoredEntry}
    (hget : state.entries.get? capability = some entry) :
    Accounted { state with
      entries := state.entries.delete capability
      consumptions := state.consumptions ++ [⟨capability, entry, false⟩] } := by
  refine h.of_shares rfl rfl (fun _ waiting hwaiting => ⟨waiting, hwaiting⟩) fun id => ?_
  have hcount := OrderedMap.countP_values_delete state.entries capability (·.holds id)
  rw [hget, countP_entry] at hcount
  have hlast : [(⟨capability, entry, false⟩ : Consumption)].countP (·.holds id) =
      [entry].countP (·.holds id) := by
    rw [List.countP_singleton, List.countP_singleton, Consumption.holds, Bool.not_false, Bool.true_and]
  unfold AttachmentStore.holders AttachmentStore.releases
  dsimp only
  rw [List.countP_append, hlast]
  omega

theorem countP_settle {index : Nat} {consumption : Consumption}
    (hget : state.consumptions[index]? = some consumption) (hopen : consumption.settled = false)
    (id : Nat) :
    (state.settle index consumption).consumptions.countP (·.holds id) +
        [consumption.entry].countP (·.holds id) =
      state.consumptions.countP (·.holds id) := by
  obtain ⟨front, back, hall, hset⟩ :=
    Flow.split_consumptions hget { consumption with settled := true }
  rw [AttachmentStore.settle]
  dsimp only
  rw [List.countP_singleton, hset, hall, List.countP_append, List.countP_append, List.countP_cons,
    List.countP_cons]
  simp only [Consumption.holds, hopen, Bool.not_true, Bool.false_and, Bool.false_eq_true, if_false,
    Bool.not_false, Bool.true_and]
  omega

theorem finish (h : Accounted state) {index : Nat} {consumption : Consumption}
    (hget : state.consumptions[index]? = some consumption) (hopen : consumption.settled = false)
    {event : StoreEvent} (hevent : ∀ id, event ≠ .released id) :
    Accounted { state.settle index consumption with
      log := state.log ++ event :: releaseOf consumption.entry.quota } := by
  refine h.of_shares rfl rfl (fun _ waiting hwaiting => ⟨waiting, hwaiting⟩) fun id => ?_
  have hcount := countP_settle hget hopen id
  have hrelease := (released_cons (hevent id)).trans (released_releaseOf id consumption.entry)
  unfold AttachmentStore.holders AttachmentStore.releases
  unfold released at hrelease
  rw [AttachmentStore.settle] at hcount ⊢
  dsimp only at hcount ⊢
  rw [List.count_append, hrelease]
  omega

theorem restore (h : Accounted state) {index : Nat} {consumption : Consumption}
    (hget : state.consumptions[index]? = some consumption) (hopen : consumption.settled = false)
    (hnone : state.entries.get? consumption.capability = none) :
    Accounted { state.settle index consumption with
      entries := state.entries.set consumption.capability consumption.entry } := by
  refine h.of_shares rfl rfl (fun _ waiting hwaiting => ⟨waiting, hwaiting⟩) fun id => ?_
  have hcount := countP_settle hget hopen id
  have hset := OrderedMap.countP_values_set state.entries consumption.capability consumption.entry
    (·.holds id)
  rw [hnone] at hset
  unfold AttachmentStore.holders AttachmentStore.releases
  rw [AttachmentStore.settle] at hcount ⊢
  dsimp only [Option.toList_none, List.countP_nil] at hcount hset ⊢
  omega

theorem countP_publishing {id : Nat} {waiting : Publishing}
    (hget : state.publishing.get? id = some waiting) (held : Nat) :
    (state.publishing.delete id).values.countP (fun waiting => waiting.entry.holds held) +
        [waiting.entry].countP (·.holds held) =
      state.publishing.values.countP (fun waiting => waiting.entry.holds held) := by
  rw [← OrderedMap.countP_values_delete state.publishing id, hget]
  rfl

theorem publishOn (h : Accounted state)
    (hentries : ∀ capability entry, state.entries.get? capability = some entry →
      state.issued.get? capability = some entry) {id : Nat} {capability : Capability}
    (hstep : state.publishOn config id capability = some after) : Accounted after := by
  unfold AttachmentStore.publishOn at hstep
  split at hstep
  · cases hstep
  · rename_i waiting hwaiting
    have hrest : ∀ other left, (state.publishing.delete id).get? other = some left →
        ∃ old, state.publishing.get? other = some old := by
      intro other left hget
      rw [OrderedMap.get?_delete] at hget
      split at hget
      · cases hget
      · exact ⟨left, hget⟩
    split at hstep
    · cases hstep
    · rename_i hready
      have hnone : state.entries.get? capability = none := by
        apply Option.eq_none_iff_forall_ne_some.mpr
        intro entry hget
        exact hready (.inr (OrderedMap.has_iff.mpr
          (OrderedMap.mem_keys_of_get? (hentries capability entry hget))))
      dsimp only at hstep
      split at hstep
      · cases hstep
        refine h.of_shares rfl rfl hrest fun held => ?_
        have hcount := countP_publishing hwaiting held
        have hrelease := released_releaseOf held waiting.entry
        unfold AttachmentStore.holders AttachmentStore.releases
        unfold released at hrelease
        dsimp only
        rw [List.count_append, hrelease]
        omega
      · cases hstep
        refine h.of_shares rfl rfl hrest fun held => ?_
        have hcount := countP_publishing hwaiting held
        have hset := OrderedMap.countP_values_set state.entries capability waiting.entry
          (·.holds held)
        rw [hnone] at hset
        unfold AttachmentStore.holders AttachmentStore.releases
        dsimp only [Option.toList_none, List.countP_nil] at hset ⊢
        omega

theorem publish (h : Accounted state) (pairingId : PersonalPairingId) (ciphertext : List UInt8)
    (now : Nat) (lease : Option Int) :
    Accounted (state.publish config pairingId ciphertext now lease) := by
  have hfresh : state.published ∉ state.handed := fun hmem => Nat.lt_irrefl _ (h.handed _ hmem)
  have hnew : state.publishing.get? state.published = none := by
    apply Option.eq_none_iff_forall_ne_some.mpr
    intro waiting hget
    exact Nat.lt_irrefl _ (h.published _ waiting hget)
  have hshare : ∀ (id : Nat) (entry : StoredEntry), entry.quota = lease.map (fun _ => state.published) →
      state.holders id + state.releases id + [entry].countP (·.holds id) =
        if id ∈ state.handed ++ (lease.map fun _ => state.published).toList then 1 else 0 := by
    intro id entry hquota
    rw [h.shares, List.countP_singleton, StoredEntry.holds, hquota]
    cases lease with
    | none => simp
    | some leased =>
      by_cases heq : state.published = id
      · subst heq
        simp [hfresh]
      · simp [heq, Ne.symm heq]
  have hhanded : ∀ id ∈ state.handed ++ (lease.map fun _ => state.published).toList,
      id < state.published + 1 := by
    intro id hmem
    rcases List.mem_append.mp hmem with hold | hlast
    · exact Nat.lt_succ_of_lt (h.handed id hold)
    · obtain ⟨leased, -, rfl⟩ := Option.map_eq_some_iff.mp (Option.mem_toList.mp hlast)
      exact Nat.lt_succ_self _
  unfold AttachmentStore.publish
  dsimp only
  split
  · refine ⟨fun id => ?_, hhanded, fun id waiting hget => Nat.lt_succ_of_lt (h.published id waiting hget)⟩
    have hcount := hshare id ⟨pairingId, ciphertext, 0, lease.map fun _ => state.published⟩ rfl
    have hrelease := released_releaseOf id
      ⟨pairingId, ciphertext, 0, lease.map fun _ => state.published⟩
    unfold AttachmentStore.holders AttachmentStore.releases at hcount ⊢
    unfold released at hrelease
    dsimp only at hcount hrelease ⊢
    rw [List.count_append, hrelease, ← hcount]
    omega
  · refine ⟨fun id => ?_, hhanded, fun id waiting hget => ?_⟩
    · have hcount := hshare id ⟨pairingId, ciphertext, now + config.capabilityLifetimeMs,
        lease.map fun _ => state.published⟩ rfl
      have hset := OrderedMap.countP_values_set state.publishing state.published
        ⟨⟨pairingId, ciphertext, now + config.capabilityLifetimeMs,
          lease.map fun _ => state.published⟩, state.swept + state.sweeps.length⟩
        (fun waiting => waiting.entry.holds id)
      rw [hnew, List.countP_singleton] at hset
      rw [List.countP_singleton] at hcount
      unfold AttachmentStore.holders AttachmentStore.releases at hcount ⊢
      dsimp only [Option.toList_none, List.countP_nil] at hcount hset ⊢
      rw [← hcount]
      omega
    · rw [OrderedMap.get?_set] at hget
      split at hget
      · rename_i heq
        rw [heq]
        exact Nat.lt_succ_self _
      · exact Nat.lt_succ_of_lt (h.published id waiting hget)

theorem sweep (h : Accounted state) (hstep : state.sweep = some after) : Accounted after := by
  unfold AttachmentStore.sweep at hstep
  split at hstep
  · cases hstep
  · rename_i next rest hsweeps
    split at hstep
    · cases hstep
    · cases hstep
      refine h.of_shares rfl rfl (fun _ waiting hwaiting => ⟨waiting, hwaiting⟩) fun id => ?_
      have hexpired : ((state.entries.entries.filter fun entry =>
          decide (entry.2.expiresAt ≤ next.now)).map fun entry =>
            StoreEvent.expired entry.1).count (.released id) = 0 := by
        apply List.count_eq_zero.mpr
        intro hmem
        obtain ⟨entry, -, heq⟩ := List.mem_map.mp hmem
        cases heq
      have hreleased := released_flatMap id
        (state.entries.entries.filter fun entry => decide (entry.2.expiresAt ≤ next.now))
      have hsplit := List.countP_eq_countP_filter_add state.entries.entries
        (fun entry => entry.2.holds id) (fun entry => decide (entry.2.expiresAt ≤ next.now))
      unfold AttachmentStore.holders AttachmentStore.releases
      unfold released at hreleased
      dsimp only [OrderedMap.values, OrderedMap.filter]
      have hvalues : ∀ entries : List (Capability × StoredEntry),
          (entries.map Prod.snd).countP (·.holds id) =
            entries.countP fun entry => entry.2.holds id := fun _ => List.countP_map
      rw [List.count_append, List.count_append, hexpired, hreleased, hvalues, hvalues, hvalues]
      omega

theorem step (h : Accounted state) (hflow : Flow config state) (op : StoreOp)
    (hstep : state.step config op = some after) : Accounted after := by
  cases op with
  | publish pairingId ciphertext now lease =>
    cases hstep
    exact h.publish pairingId ciphertext now lease
  | publishOn id capability =>
    exact h.publishOn (fun capability entry hget => (hflow.retained capability entry hget).1) hstep
  | inspect pairingId capability now =>
    cases hstep
    unfold AttachmentStore.inspect
    split
    · exact h
    · rename_i entry hentry
      split
      · exact h.expire (Flow.requireEntry_ok hentry).1
      · exact h.log_quiet fun _ => rfl
  | consume pairingId capability now =>
    cases hstep
    unfold AttachmentStore.consume
    split
    · exact h
    · rename_i entry hentry
      split
      · exact h.expire (Flow.requireEntry_ok hentry).1
      · exact (h.claim (Flow.requireEntry_ok hentry).1).log_quiet fun _ => rfl
  | complete index =>
    simp only [AttachmentStore.step, AttachmentStore.complete] at hstep
    split at hstep
    · cases hstep
    · rename_i consumption hget
      split at hstep
      · cases hstep
        exact h
      · cases hstep
        exact h.finish hget (Bool.eq_false_iff.mpr ‹_›) nofun
  | abandon index now =>
    simp only [AttachmentStore.step, AttachmentStore.abandon] at hstep
    split at hstep
    · cases hstep
    · rename_i consumption hget
      split at hstep
      · cases hstep
        exact h
      · rename_i hopen
        have hopen := Bool.eq_false_iff.mpr hopen
        split at hstep
        · cases hstep
          exact h.restore hget hopen
            (hflow.pending consumption (List.mem_of_getElem? hget) hopen).1
        · cases hstep
          exact h.finish hget hopen nofun
  | revoke pairingId capability =>
    cases hstep
    have hnone : ∀ id, released id (state.revocation pairingId capability) = 0 := by
      intro id
      apply List.count_eq_zero.mpr
      exact fun hmem => nomatch (Flow.mem_revocation hmem).1
    unfold AttachmentStore.revoke
    split
    · exact h.log_quiet hnone
    · rename_i entry hget
      split
      · exact h
      · exact h.drop hget _ hnone
  | tick now =>
    simp only [AttachmentStore.step] at hstep
    split at hstep <;> cases hstep
    exact ⟨h.shares, h.handed, h.published⟩
  | sweep => exact h.sweep hstep
  | sweepOn =>
    simp only [AttachmentStore.step, AttachmentStore.sweepOn] at hstep
    split at hstep
    · cases hstep
    · rename_i done rest hsweeps
      split at hstep
      · cases hstep
      · cases hstep
        have hlogged : Accounted { state with
            log := state.log ++ if done.final then [.disposed] else [] } :=
          h.log_quiet fun _ => by split <;> rfl
        exact ⟨hlogged.shares, hlogged.handed, hlogged.published⟩
  | dispose =>
    cases hstep
    exact ⟨h.shares, h.handed, h.published⟩
  | disposeOn index =>
    simp only [AttachmentStore.step, AttachmentStore.disposeOn] at hstep
    split at hstep
    · cases hstep
    · split at hstep <;> cases hstep
      exact ⟨h.shares, h.handed, h.published⟩

theorem empty : Accounted .empty where
  shares := fun _ => rfl
  handed := fun _ hmem => absurd hmem List.not_mem_nil
  published := fun _ _ hget => nomatch hget

end Accounted

/-- Each capability is used once and by its own pairing, never after its end; blobs are bounded;
each reservation is held once or released. -/
structure OneTime (config : Config) (state : AttachmentStore) : Prop where
  order : state.log.Pairwise Precedes
  honest : ∀ event ∈ state.log, event.Honest state.issued
  good : ∀ event ∈ state.log, ∀ capability, event.ends capability →
    state.entries.get? capability = none
  bounded : state.entries.size ≤ config.maxRetainedBlobs
  reserved : ∀ id ∈ state.handed, state.holders id + state.releases id = 1

theorem attachments_oneTime {config : Config} {ops : List StoreOp} {state : AttachmentStore}
    (hrun : run (AttachmentStore.step config) .empty ops = some state)
    (hguard : Along (AttachmentStore.step config) (Fair config) .empty ops) :
    OneTime config state := by
  have hkept : Flow config state ∧ Accounted state :=
    run_invariant_along (fun state => Flow config state ∧ Accounted state)
      (fun _ op _ hinv hfair hstep => ⟨hinv.1.step op hfair hstep, hinv.2.step hinv.1 op hstep⟩)
      hrun hguard ⟨.empty config, .empty⟩
  obtain ⟨hflow, haccounted⟩ := hkept
  refine ⟨hflow.order, hflow.honest, ?_, hflow.bounded, fun id hmem => ?_⟩
  · intro event hmem capability hends
    apply Option.eq_none_iff_forall_ne_some.mpr
    intro entry hget
    exact (hflow.retained capability entry hget).2 event hmem hends
  · rw [haccounted.shares, if_pos hmem]

def oneBlob : Config := ⟨1024, 1000, 1⟩

def deliveryRun : List StoreOp :=
  [.publish 1 [7] 0 (some 5000), .sweep, .sweepOn, .publishOn 0 11, .consume 1 11 10, .abandon 0 20,
    .inspect 2 11 25, .consume 1 11 30, .complete 1, .complete 1, .dispose, .disposeOn 0, .sweep,
    .sweepOn]

def deliveryEnd : AttachmentStore :=
  (run (AttachmentStore.step oneBlob) .empty deliveryRun).get (by decide +kernel)

theorem deliveryRun_oneTime : OneTime oneBlob deliveryEnd :=
  attachments_oneTime (Option.some_get _).symm
    (by decide +kernel : Along (AttachmentStore.step oneBlob) (Fair oneBlob) .empty deliveryRun)

/-- The capability is revoked while its blob is being delivered, and the delivery fails. -/
def revivedRun : List StoreOp :=
  [.publish 1 [7] 0 (some 5000), .sweep, .sweepOn, .publishOn 0 11, .consume 1 11 10, .revoke 1 11,
    .abandon 0 20, .inspect 1 11 30]

def revivedEnd : AttachmentStore :=
  (run (AttachmentStore.step oneBlob) .empty revivedRun).get (by decide +kernel)

theorem revivedRun_serves : ¬ ∀ state : AttachmentStore,
    run (AttachmentStore.step oneBlob) .empty revivedRun = some state → OneTime oneBlob state := by
  intro h
  have horder := (h revivedEnd (Option.some_get _).symm).order
  have hlog : revivedEnd.log =
      [.claimed 11 1 10 [7], .revoked 11, .inspected 11 1 30 [7]] := by decide +kernel
  rw [hlog] at horder
  have hlater := (List.pairwise_cons.mp (List.pairwise_cons.mp horder).2).1 _ List.mem_cons_self
  exact hlater.1 11 rfl rfl

end Harness.Attachments
