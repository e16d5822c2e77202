import LiveDocuments.Proofs.Binding.Echoes
import LiveDocuments.Proofs.Session.Courses

/-!
# Destroyed bindings in a session

From the moment a binding is destroyed, what is heard on it can be told exactly
(`Session.heardOn_destroyed`): its echo when it is asked for something, and the refreshes of
the model, which reach it as long as it is kept. It stays destroyed.
-/

namespace LiveDocuments

open Model

theorem Model.heardOn_destroy (m : Model) (id : BindingId) :
    m.destroy.heardOn id = m.heardOn id := by
  unfold destroy
  split
  · rfl
  · exact heardOn_emit_model _ _ id

namespace Binding

theorem isDestroyed_act {b : Binding} (h : b.isDestroyed = true) (m : Model)
    (request : BindingAction) : (b.act m request).1.isDestroyed = true :=
  (b.turn_act m request).destroyed_eq h

theorem isDestroyed_destroy (b : Binding) (m : Model) :
    (b.act m .destroy).1.isDestroyed = true := by
  have hcore : ∀ core : QueryCore, (core.destroy m).1.isDestroyed = true :=
    fun core => congrArg Follower.destroyed (core.destroy_eq m).2
  cases b with
  | property b => rfl
  | context b => exact hcore b.core
  | list b => cases b <;> exact hcore _

theorem heardOn_drop (b : Binding) (m : Model) (id : BindingId) :
    (b.drop m).heardOn id = m.heardOn id := by
  cases b with
  | property b => rfl
  | context b => rfl
  | list b => cases b <;> rfl

end Binding

namespace Session

/-- The binding of a number is destroyed, and the number is not given out again. -/
structure Retired (s : Session) (id : BindingId) : Prop where
  numbered : id < s.model.nextBinding
  destroyed : ∀ entry ∈ s.bindings, entry.1 = id → entry.2.isDestroyed = true

theorem nextBinding_le_act {s : Session} (h : s.Orderly) (action : SessionAction) :
    s.model.nextBinding ≤ (s.act action).model.nextBinding := by
  by_cases hdestroy : action = .destroy
  · subst hdestroy
    show s.model.nextBinding ≤ s.model.destroy.nextBinding
    unfold destroy
    split <;> exact Nat.le_refl _
  · exact (h.course hdestroy).nextBinding_le

theorem Retired.act {s : Session} {id : BindingId} (h : s.Retired id) (hs : s.Orderly)
    (action : SessionAction) : (s.act action).Retired id where
  numbered := Nat.lt_of_lt_of_le h.numbered (nextBinding_le_act hs action)
  destroyed := by
    intro entry hentry hid
    rcases mem_bindings_act hentry with
      ⟨hold, -⟩ | ⟨b, hmade, rfl⟩ | ⟨other, request, b, _, hb, rfl⟩
    · exact h.destroyed entry hold hid
    · have hnumber : b.id = s.model.nextBinding := id_of_made? hmade
      exact absurd (hnumber.symm.trans hid) (Nat.ne_of_gt h.numbered)
    · exact Binding.isDestroyed_act (h.destroyed (other, b) (mem_of_binding? hb) hid) _ _

theorem retired_destroy {s : Session} (hs : s.Orderly) {id : BindingId} {b : Binding}
    (hb : s.binding? id = some b) : (s.act (.on id .destroy)).Retired id where
  numbered := by
    obtain ⟨attempts, haccounts⟩ := hs.accounted
    have hnumber : id < s.model.nextBinding :=
      haccounts.numbered (id, b.follower) (List.mem_map_of_mem
        (f := fun entry : BindingId × Binding => (entry.1, entry.2.follower))
        (mem_of_binding? hb))
    exact Nat.lt_of_lt_of_le hnumber (nextBinding_le_act hs _)
  destroyed := by
    intro entry hentry hid
    simp only [act, hb, put] at hentry
    rcases List.mem_map.mp hentry with ⟨old, _, rfl⟩
    split at hid
    · next hold =>
        rw [if_pos hold]
        exact b.isDestroyed_destroy s.model
    · next hold => exact absurd hid hold

/-- The refreshes of the model that an action brings about for a binding. -/
def summons (s : Session) (id : BindingId) (action : SessionAction) : List BindingEvent :=
  List.replicate (if id ∈ s.model.members then s.requests action else 0) (.change .refresh)

/-- What is heard of an action on a binding that was destroyed. -/
def echo (s : Session) (id : BindingId) : SessionAction → List BindingEvent
  | .on other request =>
      if other = id then ((s.binding? id).map fun b => b.echo s.model request).getD []
      else s.summons id (.on other request)
  | action => s.summons id action

theorem heardOn_act_of_owner_ne {s : Session} (hs : s.Orderly) {id : BindingId}
    {action : SessionAction} (hdestroy : action ≠ .destroy) (h : id ≠ s.owner action) :
    (s.act action).model.heardOn id = s.model.heardOn id ++ s.summons id action := by
  rw [(hs.course hdestroy).heardOn_eq h, summons, hs.enrolled.distinct.count]
  split
  · rw [Nat.mul_one]
  · rw [Nat.mul_zero]

theorem heardOn_act {s : Session} (hs : s.Orderly) {id : BindingId} (h : s.Retired id)
    (action : SessionAction) :
    (s.act action).model.heardOn id = s.model.heardOn id ++ s.echo id action := by
  have hnext : id ≠ s.model.nextBinding := Nat.ne_of_lt h.numbered
  have hnone : ∀ action, s.requests action = 0 → s.summons id action = [] := by
    intro action hrequests
    rw [summons, hrequests, ite_self]
    rfl
  cases action with
  | destroy =>
      have hsilent : s.echo id .destroy = [] := hnone .destroy rfl
      rw [hsilent, List.append_nil]
      exact s.model.heardOn_destroy id
  | on other request =>
      by_cases hother : other = id
      · subst hother
        rw [echo, if_pos rfl]
        cases hb : s.binding? other with
        | none =>
            simp only [act, hb]
            exact (List.append_nil _).symm
        | some b =>
            have hmem := mem_of_binding? hb
            have hheard := Binding.heardOn_act (h.destroyed _ hmem rfl) (hs.attached _ hmem)
              s.model request
            rw [hs.labelled.id_eq hb] at hheard
            simp only [act, hb]
            exact hheard
      · rw [echo, if_neg hother]
        exact heardOn_act_of_owner_ne hs (by simp) (Ne.symm hother)
  | drop other =>
      by_cases hother : other = id
      · subst hother
        have hsilent : s.echo other (.drop other) = [] := hnone (.drop other) rfl
        rw [hsilent, List.append_nil]
        simp only [act, drop]
        split
        · rfl
        · next b _ => exact b.heardOn_drop s.model other
      · exact heardOn_act_of_owner_ne hs (by simp) (Ne.symm hother)
  | _ => exact heardOn_act_of_owner_ne hs (by simp) hnext

/-- In every state of a run after a binding was destroyed it is still destroyed, if it is still
kept, and whatever is then done is heard on it as its echo and no more. -/
theorem heardOn_destroyed (config : Config) (before after : List SessionAction)
    (id : BindingId) (b : Binding) (hb : ((start .empty config).run before).binding? id = some b)
    (action : SessionAction) :
    let s := (start .empty config).run (before ++ .on id .destroy :: after)
    (∀ c, s.binding? id = some c → c.isDestroyed = true) ∧
      (s.act action).model.heardOn id = s.model.heardOn id ++ s.echo id action := by
  intro s
  have hbefore := orderly_run config before
  have hrun : s = (((start .empty config).run before).act (.on id .destroy)).run after :=
    run_append _ before (.on id .destroy :: after)
  have hlast : s.Orderly ∧ s.Retired id := by
    rw [hrun]
    exact run_of_act (fun s => s.Orderly ∧ s.Retired id)
      (fun s hs action => ⟨hs.1.act action, hs.2.act hs.1 action⟩)
      ⟨hbefore.act _, retired_destroy hbefore hb⟩ after
  exact ⟨fun c hc => hlast.2.destroyed (id, c) (mem_of_binding? hc) rfl,
    heardOn_act hlast.1 hlast.2 action⟩

/-- A list of documents, a binding to a document and a list of elements. -/
def threeBindings : List SessionAction :=
  [.write (.insert "C" (.object [("_id", .string "a"), ("items", .array [.string "x"])])),
    .bindList "/C" none [] [], .bindContext "/C(a)" none,
    .bindList "items" (some ⟨"/C(a)", 0⟩) [] []]

theorem heardOn_destroyed_refreshed :
    let s := (start .empty .default).run (threeBindings ++ .on 0 .destroy :: [])
    (s.act (.on 0 (.refresh false))).model.heardOn 0 =
      s.model.heardOn 0 ++ [.change .refresh] := by
  have hbinding : (((start .empty .default).run threeBindings).binding? 0).isSome = true := by
    decide +kernel
  obtain ⟨b, hb⟩ := Option.isSome_iff_exists.mp hbinding
  exact (heardOn_destroyed .default threeBindings [] 0 b hb (.on 0 (.refresh false))).2.trans
    (by decide +kernel)

/-- All three are destroyed, and all three are heard. -/
theorem three_destroyed_heard :
    let s := (start .empty .default).run
      (threeBindings ++ [.on 0 .destroy, .on 1 .destroy, .on 2 .destroy])
    let t := s.run [.on 0 (.refresh false), .refresh, .on 1 (.refresh true), .on 2 (.filter [])]
    (∀ id ∈ [0, 1, 2], (s.binding? id).any Binding.isDestroyed = true) ∧
      t.model.heardOn 0 = s.model.heardOn 0 ++ [.change .refresh, .change .refresh] ∧
      t.model.heardOn 1 = s.model.heardOn 1 ++ [.change .refresh, .change .change] ∧
      t.model.heardOn 2 = s.model.heardOn 2 ++ [.change .refresh,
        .requestFailed "sorting and filtering not supported for binding to arrays"] := by
  decide +kernel

end Session

end LiveDocuments
