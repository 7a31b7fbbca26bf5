/-
# What a walk leaves behind

Through every callback the payload values stay in step with the payload actions consumed
so far, or a required field is missing and the walk is lost. A finished walk has consumed
every action, so its values are those of all the payload fields.
-/

import Dial9.Metrique.PlanShape
import Dial9.Metrique.Walk

namespace Dial9.Metrique

open Lib (Bytes Str Text)
open TraceFormat (BaseType FieldType FieldDef FieldValue Encoder Fault)

/-! ## Captures -/

/-- A value of a planned kind: the elements of a list are all of the one kind. -/
def ValueKind.Holds : ValueKind → FieldValue → Prop
  | scalar kind, v => v.shape = some kind.base
  | list elem, v => ∃ items, v = .list items ∧ ∀ item ∈ items, item.shape = some elem.base

variable {v : FieldValue} {count : Nat}

variable {kind : ValueKind} {enc enc' : Encoder} {w w' : EntryWalk}

theorem ValueKind.Holds.shape (h : kind.Holds v) : v.shape = some kind.base := by
  cases kind with
  | scalar kind => exact h
  | list elem =>
    obtain ⟨items, rfl, -⟩ := h
    rfl

theorem scalarMetric_value {kind : ScalarKind} {distribution : List Observation}
    (h : scalarMetric kind distribution = .value v) : v.shape = some kind.base := by
  unfold scalarMetric at h
  split at h
  case h_4 =>
    split at h
    · obtain rfl := Captured.value.inj h
      rfl
    · cases h
  case h_5 =>
    split at h
    · obtain rfl := Captured.value.inj h
      rfl
    · cases h
  all_goals
    cases h
    try rfl

variable {defaultValues : List Call → Leaf} {plan : Plan}

theorem scalarCapture_value {kind : ScalarKind} {leaf : Leaf}
    (h : scalarCapture kind enc leaf = (.ok (.value v), enc')) : v.shape = some kind.base := by
  cases leaf with
  | nothing | error => simp [scalarCapture] at h
  | metric distribution =>
    simp only [scalarCapture, Prod.mk.injEq, Except.ok.injEq] at h
    exact scalarMetric_value h.1
  | string value =>
    simp only [scalarCapture] at h
    split at h
    · split at h
      · obtain ⟨rfl, -⟩ : _ ∧ _ := by simpa using h
        rfl
      · simp at h
    · obtain ⟨rfl, -⟩ : _ ∧ _ := by simpa using h
      rfl
    · simp at h

theorem captureList_value {elem : ScalarKind} {items : List FieldValue} {calls : List Call}
    (hitems : ∀ item ∈ items, item.shape = some elem.base)
    (h : captureList defaultValues elem items enc calls = (.ok (.value v), enc')) :
    (ValueKind.list elem).Holds v := by
  induction calls generalizing items enc with
  | nil =>
    obtain ⟨rfl, -⟩ : _ ∧ _ := by simpa [captureList] using h
    exact ⟨items, rfl, hitems⟩
  | cons call calls ih =>
    simp only [captureList] at h
    split at h
    · simp at h
    · next item enc'' hcapture =>
        refine ih (fun item' hmem => ?_) h
        obtain hold | hnew := List.mem_append.mp hmem
        · exact hitems item' hold
        · obtain rfl := List.mem_singleton.mp hnew
          exact scalarCapture_value hcapture
    · exact ih hitems h
    · simp at h

theorem valueCapture_value {call : Call}
    (h : valueCapture defaultValues kind enc call = (.ok (.value v), enc')) : kind.Holds v := by
  cases kind with
  | scalar kind =>
    cases call with
    | leaf leaf => exact scalarCapture_value h
    | values elems => simp [valueCapture] at h
  | list elem =>
    cases call with
    | leaf leaf => cases leaf <;> simp [valueCapture] at h
    | values elems => exact captureList_value (fun _ hmem => by simp at hmem) h

/-! ## The invariant of the walk -/

/-- A value of a payload slot. -/
def SlotHolds (slot : Bool × ValueKind) (v : FieldValue) : Prop :=
  (slot.1 = true ∧ v = .none) ∨ slot.2.Holds v

/-- Whether a callback is one of those that the descriptors announce. -/
def Callback.isValue : Callback → Bool
  | value _ => true
  | _ => false

namespace EntryWalk

/-- After `count` value callbacks. -/
structure Follows (plan : Plan) (count : Nat) (w : EntryWalk) : Prop where
  next : w.next = min count plan.actions.length
  overflowed : w.overflowed = true ↔ plan.actions.length < count
  seen : w.payloadSeen = (payloads (plan.actions.take w.next)).length
  missing : ∀ i, w.missingRequired = some i → i < w.payloadSeen
  values : ∃ payload, w.values = List.replicate (1 + headerFields) .none ++ payload ∧
    (w.missingRequired = none →
      List.Forall₂ SlotHolds (payloads (plan.actions.take w.next)) payload)

theorem follows_new (plan : Plan) (enc : Encoder) : Follows plan 0 (new enc) where
  next := (Nat.zero_min _).symm
  overflowed := by simp [new]
  seen := by simp [new, payloads]
  missing := fun _ h => by simp [new] at h
  values := ⟨[], by simp [new], fun _ => by simp [new, payloads]⟩

theorem Follows.advance {action : FieldAction} {slots : List (Bool × ValueKind)}
    {vs : List FieldValue} (hw : Follows plan count w)
    (haction : plan.actions[w.next]? = some action) (hslots : payloads [action] = slots)
    (hnext : w'.next = w.next + 1) (hoverflowed : w'.overflowed = w.overflowed)
    (hseen : w'.payloadSeen = w.payloadSeen + slots.length) (hvalues : w'.values = w.values ++ vs)
    (hstored : (w'.missingRequired = w.missingRequired ∧ List.Forall₂ SlotHolds slots vs) ∨
      w.missingRequired.isSome ∧ w'.missingRequired = w.missingRequired ∨
      w'.missingRequired = some w.payloadSeen ∧ slots ≠ []) :
    Follows plan (count + 1) w' := by
  obtain ⟨hlt, -⟩ := List.getElem?_eq_some_iff.mp haction
  have hcount := hw.next
  have htake : payloads (plan.actions.take w'.next) =
      payloads (plan.actions.take w.next) ++ slots := by
    rw [hnext, List.take_add_one, haction, Option.toList_some, payloads_append, hslots]
  refine ⟨by omega, ?_, ?_, fun i hi => ?_, ?_⟩
  · rw [hoverflowed, hw.overflowed]
    omega
  · rw [hseen, hw.seen, htake, List.length_append]
  · obtain ⟨heq, -⟩ | ⟨-, heq⟩ | ⟨heq, hne⟩ := hstored
    · have := hw.missing i (heq ▸ hi)
      omega
    · have := hw.missing i (heq ▸ hi)
      omega
    · obtain rfl : w.payloadSeen = i := by simpa [heq] using hi
      have := List.length_pos_iff.mpr hne
      omega
  · obtain ⟨payload, hpayload, hholds⟩ := hw.values
    refine ⟨payload ++ vs, by rw [hvalues, hpayload, List.append_assoc], fun hnone => ?_⟩
    rw [htake]
    obtain ⟨heq, hslot⟩ | ⟨hsome, heq⟩ | ⟨heq, -⟩ := hstored
    · exact List.rel_append (hholds (heq ▸ hnone)) hslot
    · rw [heq] at hnone
      simp [hnone] at hsome
    · simp [heq] at hnone

theorem store_cases (w : EntryWalk) (optional : Bool) (out : Captured) :
    (∃ v, (out = .value v ∨ optional = true ∧ v = .none) ∧ w.store optional out =
      { w with payloadSeen := w.payloadSeen + 1, values := w.values ++ [v] }) ∨
    (w.missingRequired.isSome ∧
      w.store optional out = { w with payloadSeen := w.payloadSeen + 1 }) ∨
    w.store optional out =
      { w with payloadSeen := w.payloadSeen + 1, missingRequired := some w.payloadSeen } := by
  cases out with
  | value v => exact Or.inl ⟨v, Or.inl rfl, rfl⟩
  | absent | mismatched =>
    cases optional with
    | true => exact Or.inl ⟨.none, Or.inr ⟨rfl, rfl⟩, rfl⟩
    | false =>
      cases hmissing : w.missingRequired with
      | some first => exact Or.inr (Or.inl ⟨rfl, by simp [store, hmissing]⟩)
      | none => exact Or.inr (Or.inr (by simp [store, hmissing]))

section

variable (hw : Follows plan count w)
include hw

theorem Follows.store {optional : Bool} {out : Captured}
    (haction : plan.actions[w.next]? = some (.payload optional kind))
    (hout : ∀ v, out = .value v → kind.Holds v) :
    Follows plan (count + 1)
      (EntryWalk.store { w with next := w.next + 1, enc := enc } optional out) := by
  have hslots := payloads_payload optional kind
  obtain ⟨v, hv, hstore⟩ | ⟨hsome, hstore⟩ | hstore :=
    store_cases { w with next := w.next + 1, enc := enc } optional out
  · have hholds : SlotHolds (optional, kind) v := by
      obtain hv | ⟨hoptional, hnone⟩ := hv
      · exact Or.inr (hout v hv)
      · exact Or.inl ⟨hoptional, hnone⟩
    rw [hstore]
    exact hw.advance haction hslots rfl rfl rfl rfl (Or.inl ⟨rfl, .cons hholds .nil⟩)
  · rw [hstore]
    exact hw.advance haction hslots rfl rfl rfl (List.append_nil _).symm
      (Or.inr (Or.inl ⟨hsome, rfl⟩))
  · rw [hstore]
    exact hw.advance haction hslots rfl rfl rfl (List.append_nil _).symm
      (Or.inr (Or.inr ⟨rfl, List.cons_ne_nil _ _⟩))

theorem Follows.value {call : Call}
    (h : w.value defaultValues plan call = .ok w') : Follows plan (count + 1) w' := by
  unfold EntryWalk.value at h
  split at h
  · next hend =>
      obtain rfl := Except.ok.inj h
      have hlength := List.getElem?_eq_none_iff.mp hend
      have hnext := hw.next
      exact ⟨by simp only; omega, by simp only [true_iff]; omega, hw.seen, hw.missing, hw.values⟩
  · next action haction =>
      cases action with
      | skip =>
        obtain rfl := Except.ok.inj h
        exact hw.advance haction payloads_skip rfl rfl rfl (List.append_nil _).symm
          (Or.inl ⟨rfl, .nil⟩)
      | context role =>
        obtain rfl := Except.ok.inj h
        exact hw.advance haction (payloads_context role) rfl rfl rfl (List.append_nil _).symm
          (Or.inl ⟨rfl, .nil⟩)
      | payload optional kind =>
        simp only at h
        split at h
        · next out enc hcapture =>
            obtain rfl := Except.ok.inj h
            exact hw.store haction fun v hv => valueCapture_value (hv ▸ hcapture)
        · simp at h

theorem Follows.timestamp (time : Int) : Follows plan count (w.timestamp time) :=
  { hw with }

/-- The invariant over a whole write that does not panic. -/
theorem Follows.foldlM {callbacks : List Callback}
    (h : callbacks.foldlM (callback defaultValues plan) w = .ok w') :
    Follows plan (count + callbacks.countP Callback.isValue) w' := by
  induction callbacks generalizing count w with
  | nil =>
    obtain rfl := Except.ok.inj h
    exact hw
  | cons cb callbacks ih =>
    rw [List.foldlM_cons] at h
    cases cb with
    | timestamp time => exact ih (hw.timestamp time) h
    | config => exact ih hw h
    | value call =>
      cases hvalue : w.value defaultValues plan call with
      | error fault => simp [callback, hvalue, bind, Except.bind] at h
      | ok w'' =>
        simp only [callback, hvalue, bind, Except.bind] at h
        have hrest := ih (hw.value hvalue) h
        have hone : (Callback.value call :: callbacks).countP Callback.isValue =
            1 + callbacks.countP Callback.isValue := by
          simp [List.countP_cons, Callback.isValue, Nat.add_comm]
        rwa [hone, ← Nat.add_assoc]

end

/-! ## The end of the walk -/

/-- The values of the header fields. -/
def headerValues (ctx : ContextValues) (threadId duration : UInt64) : List FieldValue :=
  Header.all.map (headerValue ctx threadId duration)

theorem fill_eq {payload : List FieldValue}
    (h : w.values = List.replicate (1 + headerFields) .none ++ payload)
    (threadId start fin : UInt64) : ∃ duration, w.fill threadId start fin =
      .varint fin :: (headerValues w.ctx threadId duration ++ payload) := by
  refine ⟨if start ≤ fin then fin - start else 0, ?_⟩
  rw [fill, h]
  rfl

theorem Follows.finish_ok {vs : List FieldValue} (hw : Follows plan count w)
    (h : w.finish plan = .ok vs) :
    count = plan.actions.length ∧ ∃ ts threadId duration payload,
      vs = .varint ts :: (headerValues w.ctx threadId duration ++ payload) ∧
      List.Forall₂ SlotHolds (payloads plan.actions) payload := by
  unfold finish at h
  split at h
  · simp at h
  · next hcounts =>
      obtain ⟨hoverflowed, hnext⟩ : ¬ w.overflowed = true ∧ w.next = plan.actions.length := by
        simpa [not_or] using hcounts
      split at h
      · split at h <;> simp at h
      · next hmissing =>
          split at h
          · simp at h
          · simp at h
          · simp at h
          · next threadId start fin _ _ _ =>
              obtain rfl := Except.ok.inj h
              obtain ⟨payload, hpayload, hholds⟩ := hw.values
              obtain ⟨duration, hfill⟩ := fill_eq hpayload threadId start fin
              have hall := hholds hmissing
              rw [hnext, List.take_length] at hall
              have hcount := hw.next
              rw [hw.overflowed] at hoverflowed
              exact ⟨by omega, fin, threadId, duration, payload, hfill, hall⟩

end EntryWalk

end Dial9.Metrique
