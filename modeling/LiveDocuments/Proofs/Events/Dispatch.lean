import LiveDocuments.Events.Listener
import LiveDocuments.Proofs.Events.Trace

/-!
# Dispatching in the midst of dispatching

Listeners may do to a hub whatever anybody else may, while they are being called. What a
listener does cannot disturb a dispatch that is already on its way: it adds no call to it,
and all dispatches it begins are brought to their end (`Completes`). That is shown of a
reaction as long as it is known of the dispatches the reaction begins (`perform_completes`),
of the calls of one dispatch from that (`callEach_progresses`), and so of dispatches nested
to any depth (`emit?_completes`).

The hub is tied to its trace by `Recorded`: its listeners are those that stand by the trace.
-/

namespace LiveDocuments

open Trace

variable {E K : Type}

namespace EventHub

/-! ## A hub and its trace -/

/-- A hub is as its trace tells. -/
structure Recorded (hub : EventHub E K) : Prop where
  truthful : IsTruthful hub.trace
  registered : hub.registered = standing hub.trace
  nextId : hub.nextId = (joined hub.trace).length + 1
  dispatches : hub.dispatches = (begun hub.trace).length

namespace Recorded

variable {hub : EventHub E K}

theorem empty : (empty : EventHub E K).Recorded := ⟨isTruthful_nil, rfl, rfl, rfl⟩

theorem note (h : hub.Recorded) {o : Occurrence E K} (hfits : Fits hub.trace o)
    (hjoined : o.joined? = none) (hremoved : o.removed? = none) (hbegun : o.begun? = none) :
    (hub.note o).Recorded where
  truthful := isTruthful_append_singleton.mpr ⟨h.truthful, hfits⟩
  registered := h.registered.trans (standing_other hjoined hremoved).symm
  nextId := h.nextId.trans (congrArg (List.length · + 1) (joined_other hjoined).symm)
  dispatches := h.dispatches.trans (congrArg List.length (begun_other hbegun).symm)

theorem nextId_not_mem (h : hub.Recorded) : hub.nextId ∉ joined hub.trace := by
  rw [h.truthful.joined_eq, h.nextId, List.mem_range'_1]
  omega

theorem on (h : hub.Recorded) (listener : ListenerId → Listener E K) :
    (hub.on listener).2.Recorded where
  truthful := isTruthful_append_singleton.mpr ⟨h.truthful, h.nextId⟩
  registered := by
    have hnew : hub.nextId ∉ removed hub.trace := fun hid =>
      h.nextId_not_mem (h.truthful.mem_joined_of_mem_removed hid)
    refine (List.map_append.trans ?_).trans (standing_joined hnew).symm
    rw [← h.registered]
    rfl
  nextId := by
    have hjoined : joined (hub.on listener).2.trace = joined hub.trace ++ [hub.nextId] :=
      joined_append
    rw [hjoined, List.length_append]
    exact congrArg (· + 1) h.nextId
  dispatches := h.dispatches.trans (congrArg List.length (begun_other rfl).symm)

theorem off (h : hub.Recorded) (id : ListenerId) : (hub.off id).2.Recorded := by
  have hknown : hub.registered.contains id = true ↔ id ∈ standing hub.trace := by
    rw [List.contains_iff_mem, h.registered]
  refine ⟨isTruthful_append_singleton.mpr ⟨h.truthful, hknown⟩, ?_, ?_, ?_⟩
  · refine Eq.trans ?_ (standing_left hknown).symm
    rw [← h.registered, EventHub.registered, EventHub.registered, List.filter_map]
    rfl
  · exact h.nextId.trans (congrArg (List.length · + 1) (joined_other rfl).symm)
  · exact h.dispatches.trans (congrArg List.length (begun_other rfl).symm)

theorem begin (h : hub.Recorded) (event : E) : (hub.begin event).Recorded where
  truthful := isTruthful_append_singleton.mpr ⟨h.truthful, h.dispatches, h.registered⟩
  registered := h.registered.trans (standing_other rfl rfl).symm
  nextId := h.nextId.trans (congrArg (List.length · + 1) (joined_other rfl).symm)
  dispatches := by
    have hbegun : begun (hub.begin event).trace = begun hub.trace ++ [(event, hub.registered)] :=
      begun_append
    rw [hbegun, List.length_append]
    exact congrArg (· + 1) h.dispatches

theorem listenerCount (h : hub.Recorded) : hub.listenerCount = (standing hub.trace).length := by
  rw [← h.registered, EventHub.registered, List.length_map, EventHub.listenerCount]

end Recorded

/-! ## What a reaction brings to its end -/

variable {earlier middle later : List (Occurrence E K)} {n : Nat}

/-- Of the dispatches that had begun, none was called for again, and all that began since
have made the calls they had to. -/
structure Completes (earlier later : List (Occurrence E K)) : Prop where
  grows : earlier <+: later
  quiet : ∀ m < (begun earlier).length, calls m later = calls m earlier
  complete : ∀ m, (begun earlier).length ≤ m → calls m later = due m later

/-- While one dispatch made some calls, none of the others that had begun was called for
again, and all that began since have made the calls they had to. -/
structure Progresses (n : Nat) (made : List (ListenerId × E))
    (earlier later : List (Occurrence E K)) : Prop where
  grows : earlier <+: later
  own : calls n later = calls n earlier ++ made
  quiet : ∀ m < (begun earlier).length, m ≠ n → calls m later = calls m earlier
  complete : ∀ m, (begun earlier).length ≤ m → m ≠ n → calls m later = due m later

theorem length_begun_le (h : earlier <+: later) :
    (begun earlier).length ≤ (begun later).length := by
  obtain ⟨after, rfl⟩ := h
  rw [begun_append, List.length_append]
  exact Nat.le_add_right _ _

namespace Completes

theorem refl (h : IsTruthful earlier) : Completes earlier earlier where
  grows := List.prefix_rfl
  quiet := fun _ _ => rfl
  complete := fun _ hm => (h.calls_eq_nil hm).trans (due_eq_nil hm).symm

theorem append_singleton (h : IsTruthful earlier) {o : Occurrence E K}
    (hbegun : o.begun? = none) (hcall : ∀ m, o.call? m = none) :
    Completes earlier (earlier ++ [o]) where
  grows := List.prefix_append _ _
  quiet := fun m _ => calls_other (hcall m)
  complete := fun m hm => by
    rw [calls_other (hcall m), h.calls_eq_nil hm, due_eq_nil]
    rw [begun_other hbegun]
    exact hm

theorem trans (first : Completes earlier middle) (second : Completes middle later) :
    Completes earlier later where
  grows := first.grows.trans second.grows
  quiet := fun m hm => by
    rw [second.quiet m (Nat.lt_of_lt_of_le hm (length_begun_le first.grows)), first.quiet m hm]
  complete := fun m hm => by
    by_cases hmiddle : m < (begun middle).length
    · rw [second.quiet m hmiddle, first.complete m hm, due_of_prefix second.grows hmiddle]
    · exact second.complete m (Nat.not_lt.mp hmiddle)

/-- What brings other dispatches to their end lets one that is on its way wait. -/
theorem progresses (h : Completes earlier later) (hn : n < (begun earlier).length) :
    Progresses n [] earlier later where
  grows := h.grows
  own := (h.quiet n hn).trans (List.append_nil _).symm
  quiet := fun m hm _ => h.quiet m hm
  complete := fun m hm _ => h.complete m hm

end Completes

namespace Progresses

variable {made more : List (ListenerId × E)}

theorem trans (first : Progresses n made earlier middle)
    (second : Progresses n more middle later) :
    Progresses n (made ++ more) earlier later where
  grows := first.grows.trans second.grows
  own := by rw [second.own, first.own, List.append_assoc]
  quiet := fun m hm hne => by
    rw [second.quiet m (Nat.lt_of_lt_of_le hm (length_begun_le first.grows)) hne,
      first.quiet m hm hne]
  complete := fun m hm hne => by
    by_cases hmiddle : m < (begun middle).length
    · rw [second.quiet m hmiddle hne, first.complete m hm hne,
        due_of_prefix second.grows hmiddle]
    · exact second.complete m (Nat.not_lt.mp hmiddle) hne

theorem called (h : IsTruthful earlier) (id : ListenerId) (event : E) :
    Progresses n [(id, event)] earlier (earlier ++ [.called n id event]) where
  grows := List.prefix_append _ _
  own := calls_called id event
  quiet := fun m _ hne => calls_called_of_ne hne id event
  complete := fun m hm hne => by
    rw [calls_called_of_ne hne, h.calls_eq_nil hm, due_eq_nil]
    rw [begun_other rfl]
    exact hm

/-- A dispatch that has made the calls it began for is at its end. -/
theorem completes {event : E} {ids : List ListenerId}
    (htruthful : IsTruthful (earlier ++ [.began n event ids]))
    (h : Progresses n (ids.map (·, event)) (earlier ++ [.began n event ids]) later) :
    Completes earlier later := by
  obtain ⟨hearlier, hnumber, -⟩ := isTruthful_append_singleton.mp htruthful
  have hcalls : ∀ m, calls m (earlier ++ [.began n event ids]) = calls m earlier :=
    fun m => calls_other rfl
  have hbegun : (begun (earlier ++ [.began n event ids])).length = n + 1 := by
    rw [begun_append, List.length_append, ← hnumber]
    rfl
  refine ⟨(List.prefix_append _ _).trans h.grows, fun m hm => ?_, fun m hm => ?_⟩
  · rw [← hnumber] at hm
    rw [h.quiet m (hbegun ▸ Nat.lt_succ_of_lt hm) (Nat.ne_of_lt hm), hcalls]
  · rw [← hnumber] at hm
    rcases Nat.eq_or_lt_of_le hm with rfl | hlater
    · rw [h.own, hcalls, hearlier.calls_eq_nil (Nat.le_of_eq hnumber.symm), List.nil_append,
        due_of_prefix h.grows (hbegun ▸ Nat.lt_succ_self n), htruthful.due_eq]
    · exact h.complete m (hbegun ▸ hlater) (Nat.ne_of_gt hlater)

end Progresses

/-! ## Dispatches at any depth -/

/-- The hub is as its trace tells, and all that began is at its end. -/
structure Develops (hub later : EventHub E K) : Prop where
  recorded : later.Recorded
  completes : Completes hub.trace later.trace

theorem Develops.after_note {hub middle later : EventHub E K} {o : Occurrence E K}
    (hnext : middle.Develops later) (h : hub.Recorded)
    (htrace : middle.trace = hub.trace ++ [o]) (hbegun : o.begun? = none)
    (hcall : ∀ m, o.call? m = none) : hub.Develops later where
  recorded := hnext.recorded
  completes := by
    have hcompletes := hnext.completes
    rw [htrace] at hcompletes
    exact (Completes.append_singleton h.truthful hbegun hcall).trans hcompletes

/-- Dispatching keeps a hub as its trace tells and brings all that begins to its end. -/
def IsExact (dispatch : E → EventHub E K → Option (EventHub E K)) : Prop :=
  ∀ event hub later, hub.Recorded → dispatch event hub = some later → hub.Develops later

variable {dispatch : E → EventHub E K → Option (EventHub E K)}

/-- A reaction disturbs no dispatch that is on its way, and leaves none of its own
behind. -/
theorem develops_perform (hdispatch : IsExact dispatch) (reaction : Reaction E K)
    {hub later : EventHub E K} (h : hub.Recorded)
    (hperform : reaction.perform dispatch hub = some later) : hub.Develops later := by
  induction reaction generalizing hub with
  | done =>
      obtain rfl := Option.some.inj hperform
      exact ⟨h, .refl h.truthful⟩
  | hear key event next ih =>
      have hnoted : (hub.note (.heard key event)).Recorded := h.note trivial rfl rfl rfl
      exact (ih hnoted hperform).after_note h rfl rfl fun _ => rfl
  | lookBack next ih => exact ih hub.trace h hperform
  | on listener next _ ih =>
      exact (ih _ (h.on listener) hperform).after_note h rfl rfl fun _ => rfl
  | off id next ih => exact (ih _ (h.off id) hperform).after_note h rfl rfl fun _ => rfl
  | count next ih =>
      have hnoted : (hub.note (.counted hub.listenerCount)).Recorded :=
        h.note h.listenerCount rfl rfl rfl
      exact (ih _ hnoted hperform).after_note h rfl rfl fun _ => rfl
  | emit event next ih =>
      rw [Reaction.perform] at hperform
      cases hemit : dispatch event hub with
      | none =>
          rw [hemit] at hperform
          cases hperform
      | some middle =>
          rw [hemit] at hperform
          have hfirst := hdispatch event hub middle h hemit
          have hnext := ih hfirst.recorded hperform
          exact ⟨hnext.recorded, hfirst.completes.trans hnext.completes⟩

/-- The calls of one dispatch are made in order, whatever the listeners do. -/
theorem progresses_callEach (hdispatch : IsExact dispatch) (event : E)
    (entries : List (ListenerId × Listener E K)) {hub later : EventHub E K}
    (h : hub.Recorded) (hn : n < (begun hub.trace).length)
    (hcall : callEach dispatch n event entries hub = some later) :
    later.Recorded ∧
      Progresses n (entries.map fun entry => (entry.1, event)) hub.trace later.trace := by
  induction entries generalizing hub with
  | nil =>
      obtain rfl := Option.some.inj hcall
      exact ⟨h, (Completes.refl h.truthful).progresses hn⟩
  | cons entry rest ih =>
      obtain ⟨id, listener⟩ := entry
      rw [callEach] at hcall
      have hnoted : (hub.note (.called n id event)).Recorded := h.note hn rfl rfl rfl
      have hbegun : begun (hub.note (.called n id event)).trace = begun hub.trace :=
        begun_other rfl
      cases hreact : (listener event).perform dispatch (hub.note (.called n id event)) with
      | none =>
          rw [hreact] at hcall
          cases hcall
      | some middle =>
          rw [hreact] at hcall
          have hreaction := develops_perform hdispatch _ hnoted hreact
          have hlength := length_begun_le hreaction.completes.grows
          rw [hbegun] at hlength
          obtain ⟨hrecorded, hrest⟩ :=
            ih hreaction.recorded (Nat.lt_of_lt_of_le hn hlength) hcall
          have hown := hreaction.completes.progresses (hbegun ▸ hn)
          exact ⟨hrecorded, ((Progresses.called h.truthful id event).trans hown).trans hrest⟩

/-- Nested to any depth, a dispatch makes its own calls, and so do all that begin in its
course. -/
theorem isExact_emit? (depth : Nat) : IsExact (emit? (E := E) (K := K) depth) := by
  induction depth with
  | zero =>
      intro event hub later h hemit
      cases hemit
  | succ depth ih =>
      intro event hub later h hemit
      have hbegin := h.begin event
      have hn : hub.dispatches < (begun (hub.begin event).trace).length := by
        rw [← hbegin.dispatches]
        exact Nat.lt_succ_self _
      obtain ⟨hrecorded, hcalls⟩ := progresses_callEach ih event hub.listeners hbegin hn hemit
      refine ⟨hrecorded, Progresses.completes hbegin.truthful ?_⟩
      rw [registered, List.map_map]
      exact hcalls

/-! ## Depth -/

/-- What one way of dispatching brings to an end, the other does with the same outcome. -/
def Covers (wider narrower : E → EventHub E K → Option (EventHub E K)) : Prop :=
  ∀ event hub later, narrower event hub = some later → wider event hub = some later

variable {wider narrower : E → EventHub E K → Option (EventHub E K)}

theorem perform_of_covers (h : Covers wider narrower) (reaction : Reaction E K)
    {hub later : EventHub E K} (hperform : reaction.perform narrower hub = some later) :
    reaction.perform wider hub = some later := by
  induction reaction generalizing hub with
  | done => exact hperform
  | hear key event next ih => exact ih hperform
  | lookBack next ih => exact ih _ hperform
  | on listener next _ ih => exact ih _ hperform
  | off id next ih => exact ih _ hperform
  | count next ih => exact ih _ hperform
  | emit event next ih =>
      rw [Reaction.perform] at hperform ⊢
      cases hemit : narrower event hub with
      | none =>
          rw [hemit] at hperform
          cases hperform
      | some middle =>
          rw [hemit] at hperform
          rw [h event hub middle hemit]
          exact ih hperform

theorem callEach_of_covers (h : Covers wider narrower) (event : E)
    (entries : List (ListenerId × Listener E K)) {hub later : EventHub E K}
    (hcall : callEach narrower n event entries hub = some later) :
    callEach wider n event entries hub = some later := by
  induction entries generalizing hub with
  | nil => exact hcall
  | cons entry rest ih =>
      rw [callEach] at hcall ⊢
      cases hreact : (entry.2 event).perform narrower (hub.note (.called n entry.1 event)) with
      | none =>
          rw [hreact] at hcall
          cases hcall
      | some middle =>
          rw [hreact] at hcall
          rw [perform_of_covers h _ hreact]
          exact ih hcall

theorem covers_emit? {depth more : Nat} (hle : depth ≤ more) :
    Covers (emit? (E := E) (K := K) more) (emit? depth) := by
  induction more generalizing depth with
  | zero =>
      obtain rfl := Nat.le_zero.mp hle
      exact fun _ _ _ => id
  | succ more ih =>
      cases depth with
      | zero =>
          intro event hub later hemit
          cases hemit
      | succ depth =>
          exact fun event hub later hemit =>
            callEach_of_covers (ih (Nat.le_of_succ_le_succ hle)) event hub.listeners hemit

/-! ## What holds on every hub -/

/-- Whatever is done on a hub from its making, with listeners that do whatever they like
while they are called, nested to any depth: each dispatch that begins is for the ids that
stand when it begins, and calls each of them once, in order and with its event, and there are
no other calls; the ids given out are all different; taking an id back answers whether it
stands, and no dispatch that begins later calls an id that was given out before; listeners
are counted as the ids that stand. More depth would make no difference. -/
theorem calls_standing_once {depth : Nat} {program : Reaction E K} {hub : EventHub E K}
    (h : program.perform (emit? depth) empty = some hub) :
    (∀ before dispatch event ids after,
        hub.trace = before ++ .began dispatch event ids :: after →
        dispatch = (begun before).length ∧ ids = standing before ∧
          calls dispatch before = [] ∧ calls dispatch after = ids.map (·, event)) ∧
      (∀ before dispatch id event after,
        hub.trace = before ++ .called dispatch id event :: after →
        ∃ ids, .began dispatch event ids ∈ before) ∧
      (joined hub.trace).Nodup ∧
      (∀ before id known after, hub.trace = before ++ .left id known :: after →
        (known = true ↔ id ∈ standing before) ∧
          (id ∈ joined before → ∀ dispatch event ids, .began dispatch event ids ∈ after →
            id ∉ (calls dispatch hub.trace).map Prod.fst)) ∧
      (∀ before count after, hub.trace = before ++ .counted count :: after →
        count = (standing before).length) ∧
      hub.registered = standing hub.trace ∧
      hub.listenerCount = (standing hub.trace).length ∧
      ∀ more ≥ depth, program.perform (emit? more) empty = some hub := by
  obtain ⟨hrecorded, hcompletes⟩ := develops_perform (isExact_emit? depth) program .empty h
  have htruthful := hrecorded.truthful
  have hcalls : ∀ m, calls m hub.trace = due m hub.trace := fun m =>
    hcompletes.complete m (Nat.zero_le m)
  have hbegan : ∀ {before dispatch event ids after},
      hub.trace = before ++ .began dispatch event ids :: after →
      calls dispatch before = [] ∧ calls dispatch after = ids.map (·, event) := by
    intro before dispatch event ids after heq
    have hdone := hcalls dispatch
    rw [heq] at hdone
    exact (heq ▸ htruthful).calls_after hdone
  refine ⟨fun before dispatch event ids after heq => ?_,
    fun before dispatch id event after heq => ?_, ?_, fun before id known after heq => ?_,
    fun before count after heq => htruthful before _ after heq, hrecorded.registered,
    hrecorded.listenerCount, fun more hmore => perform_of_covers (covers_emit? hmore) program h⟩
  · obtain ⟨hnumber, hids⟩ := htruthful before _ after heq
    exact ⟨hnumber, hids, hbegan heq⟩
  · have hnumber := htruthful before _ after heq
    obtain ⟨earlier, other, ids, later, rfl⟩ := (heq ▸ htruthful).of_append.exists_began hnumber
    have hmade : (id, event) ∈ ids.map (·, other) := by
      rw [← (hbegan (heq.trans (List.append_assoc ..))).2]
      exact List.mem_filterMap.mpr ⟨_, List.mem_append_right _ List.mem_cons_self, if_pos rfl⟩
    obtain ⟨_, _, hsame⟩ := List.mem_map.mp hmade
    obtain rfl := congrArg Prod.snd hsame
    exact ⟨ids, List.mem_append_right _ List.mem_cons_self⟩
  · rw [htruthful.joined_eq]
    exact List.nodup_range'
  · refine ⟨htruthful before _ after heq, fun hid dispatch event ids hmem hcalled => ?_⟩
    obtain ⟨between, rest, rfl⟩ := List.append_of_mem hmem
    have hsplit : hub.trace =
        (before ++ .left id known :: between) ++ .began dispatch event ids :: rest := by
      rw [heq, List.append_assoc, List.cons_append]
    have htruth := hsplit ▸ htruthful
    rw [hcalls, hsplit, htruth.due_eq, (htruthful _ _ _ hsplit).2, List.map_map] at hcalled
    obtain ⟨other, hstanding, rfl⟩ := List.mem_map.mp hcalled
    exact htruth.of_append.not_mem_standing hid hstanding

/-- One listener removes itself, the next answers with another event, the last brings in
further ones, all in one dispatch. -/
def crossing : Reaction Bool Nat :=
  .on (Listener.once 1) fun first =>
    .on (Listener.echoing 2 id false) fun _ =>
      .on (Listener.spawning 3 4) fun _ =>
        .emit true (.off first fun _ => .count fun _ => .done)

theorem calls_standing_once_crossing :
    ∃ hub, crossing.perform (emit? 2) empty = some hub ∧
      calls 0 hub.trace = [(1, true), (2, true), (3, true)] ∧
      calls 1 hub.trace = [(2, false), (3, false)] ∧
      (joined hub.trace).Nodup ∧ hub.listenerCount = (standing hub.trace).length ∧
      standing hub.trace = [2, 3, 4, 5] :=
  have h := calls_standing_once (show crossing.perform (emit? 2) empty = some _ from rfl)
  ⟨_, rfl, rfl, rfl, h.2.2.1, h.2.2.2.2.2.2.1, by decide⟩

end EventHub

end LiveDocuments
