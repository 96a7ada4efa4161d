import Mathlib.Data.List.Forall2
import Vicinity.Proofs.Erasure
import Vicinity.Proofs.RoundTrip

namespace Vicinity

section Traces

section Lists

variable {β γ : Type} {R : β → γ → Prop} {xs : List β} {ys : List γ}

theorem rel_getElem? (h : List.Forall₂ R xs ys) (i : Nat) : Option.Rel R xs[i]? ys[i]? := by
  induction h generalizing i with
  | nil => exact .none
  | cons hxy _ ih =>
      cases i with
      | zero => exact .some hxy
      | succ i => exact ih i

theorem forall₂_set (h : List.Forall₂ R xs ys) {x : β} {y : γ} (hxy : R x y) (i : Nat) :
    List.Forall₂ R (xs.set i x) (ys.set i y) := by
  induction h generalizing i with
  | nil => exact .nil
  | cons hab h ih =>
      cases i with
      | zero => exact .cons hxy h
      | succ i => exact .cons hab (ih i)

end Lists

variable {σ τ ι κ γ δ : Type} {step : σ → ι → Option (γ × σ)} {step' : τ → κ → Option (δ × τ)}
variable {R : σ → τ → Prop} {I : ι → κ → Prop} {O : γ → δ → Prop}

theorem trace_related
    (hstep : ∀ {s t i j}, R s t → I i j →
      Option.Rel (fun p q => O p.1 q.1 ∧ R p.2 q.2) (step s i) (step' t j))
    {s : σ} {t : τ} (h : R s t) {is : List ι} {js : List κ} (hin : List.Forall₂ I is js) :
    List.Forall₂ O (trace step s is).1 (trace step' t js).1 := by
  induction hin generalizing s t with
  | nil => exact .nil
  | @cons i j is js hij _ ih =>
      have hmoved := hstep h hij
      rw [trace, trace]
      generalize step s i = moved at hmoved ⊢
      generalize step' t j = moved' at hmoved ⊢
      cases hmoved with
      | none => exact ih h
      | some hmoved => exact .cons hmoved.1 (ih hmoved.2)

end Traces

namespace Metric.Kind

variable {α : Type} [Element α]

def direct : Kind → Metric α
  | .euclidean => Metric.euclidean
  | .squaredEuclidean => Metric.squaredEuclidean
  | .manhattan => Metric.manhattan
  | .cosine => Metric.cosine

theorem metric_eq_direct (k : Kind) : (k.metric : Metric α) = k.direct := by
  cases k <;> rfl

end Metric.Kind

variable {K α : Type} [DecidableEq K] [Hashable K]

namespace Index

structure Alike (ix jx : Index K α) : Prop where
  left : ix.WellFormed
  right : jx.WellFormed
  left_sound : ix.backend.Sound
  right_sound : jx.backend.Sound
  roster_eq : ix.roster = jx.roster

namespace Alike

variable {ix jx : Index K α}

theorem reply_eq (h : ix.Alike jx) (order order' : KeyOrder K) (c : Command K α) :
    (ix.executeInOrder order c).1 = (jx.executeInOrder order' c).1 := by
  rw [h.left.reply_executeInOrder order c fun _ => h.left_sound,
    h.right.reply_executeInOrder order' c fun _ => h.right_sound, h.roster_eq]

theorem executeInOrder (h : ix.Alike jx) (order order' : KeyOrder K) (c : Command K α) :
    (ix.executeInOrder order c).2.Alike (jx.executeInOrder order' c).2 := by
  have hleft := h.left.becomes_executeInOrder order c
  have hright := h.right.becomes_executeInOrder order' c
  refine ⟨hleft.wellFormed, hright.wellFormed, hleft.backend_eq ▸ h.left_sound,
    hright.backend_eq ▸ h.right_sound, ?_⟩
  rw [hleft.roster_eq, hright.roster_eq, h.roster_eq]

end Alike

end Index

namespace Session

variable {s t : Session K α}

def Alike (s t : Session K α) : Prop := List.Forall₂ Index.Alike s.indexes t.indexes

/-- What a caller sees of a call: not the order in which slots were renumbered. -/
def Call.seen (c : Call K α) : Nat × Action K α × Except Error (Outcome K α) :=
  (c.handle, c.action, c.outcome)

theorem call_none {handle : Nat} (h : s.index? handle = none) (order : KeyOrder K)
    (a : Action K α) : s.call (order, handle, a) = none := by
  rw [Session.call, stepInOrder, h]
  rfl

theorem call_command {handle : Nat} {ix : Index K α} (h : s.index? handle = some ix)
    (order : KeyOrder K) (c : Command K α) :
    s.call (order, handle, .command c) =
      some (⟨order, handle, .command c, (ix.executeInOrder order c).1.map .reply⟩,
        ⟨s.indexes.set handle (ix.executeInOrder order c).2⟩) := by
  rw [Session.call, stepInOrder, h]
  rfl

theorem call_copy {handle : Nat} {ix : Index K α} (h : s.index? handle = some ix)
    (order : KeyOrder K) :
    s.call (order, handle, .copy) =
      some (⟨order, handle, .copy, .ok (.handle s.indexes.length)⟩, ⟨s.indexes ++ [ix]⟩) := by
  rw [Session.call, stepInOrder, h]
  rfl

theorem Alike.call (h : s.Alike t) {entry entry' : KeyOrder K × Nat × Action K α}
    (same : entry.2 = entry'.2) :
    Option.Rel (fun p q => p.1.seen = q.1.seen ∧ p.2.Alike q.2) (s.call entry) (t.call entry') := by
  obtain ⟨order, handle, a⟩ := entry
  obtain ⟨order', handle', a'⟩ := entry'
  cases same
  have hindex : Option.Rel Index.Alike (s.index? handle) (t.index? handle) := rel_getElem? h handle
  generalize hi : s.index? handle = i at hindex
  generalize hj : t.index? handle = j at hindex
  cases hindex with
  | none =>
      rw [call_none hi, call_none hj]
      exact .none
  | some hij =>
      cases a with
      | command c =>
          rw [call_command hi, call_command hj, hij.reply_eq order order' c]
          exact .some ⟨rfl, forall₂_set h (hij.executeInOrder order order' c) handle⟩
      | copy =>
          rw [call_copy hi, call_copy hj, h.length_eq]
          exact .some ⟨rfl, List.rel_append h (.cons hij .nil)⟩

theorem Alike.run (h : s.Alike t) {entries entries' : List (KeyOrder K × Nat × Action K α)}
    (same : entries.map Prod.snd = entries'.map Prod.snd) :
    (s.run entries).1.map Call.seen = (t.run entries').1.map Call.seen := by
  rw [← List.forall₂_eq_eq_eq, List.forall₂_map_left_iff, List.forall₂_map_right_iff] at same ⊢
  exact trace_related (R := Alike) (fun h hin => h.call hin) h same

end Session

namespace Index

variable [Element α]

/-- The ways to an index of the given dimension that measures by the given kind of metric. -/
inductive Route (k : Metric.Kind) (dimension : Nat) : Except Error (Index K α) → Prop
  | direct : Route k dimension (emptyWith dimension k.direct)
  | kind : Route k dimension (emptyWith dimension k.metric)
  | backend {b : Backend} (hb : b.Sound) : Route k dimension (emptyOn dimension k.metric b)
  | config : Route k dimension (ofConfig ⟨dimension, k⟩)
  | json {text : String} (h : Config.Denotes text.toList ⟨dimension, k⟩) :
      Route k dimension (Config.ofJson text >>= ofConfig)
  | default (h : k = .euclidean) : Route k dimension (empty dimension)

variable {k : Metric.Kind} {dimension : Nat}

theorem ofConfig_eq (c : Config) :
    (ofConfig c : Except Error (Index K α)) = emptyOn c.dimension c.metric.direct .standard := by
  rw [ofConfig, Config.validate, Metric.Kind.metric_eq_direct]
  split_ifs with h
  · rw [h]
    rfl
  · rfl

theorem Route.eq_emptyOn {r : Except Error (Index K α)} (h : Route k dimension r) :
    ∃ b : Backend, b.Sound ∧ r = emptyOn dimension k.direct b := by
  cases h with
  | direct => exact ⟨.standard, Backend.standard_sound, rfl⟩
  | kind => exact ⟨.standard, Backend.standard_sound, by rw [k.metric_eq_direct]; rfl⟩
  | backend hb => exact ⟨_, hb, by rw [k.metric_eq_direct]⟩
  | config => exact ⟨.standard, Backend.standard_sound, ofConfig_eq _⟩
  | json h =>
      refine ⟨.standard, Backend.standard_sound, ?_⟩
      rw [Config.ofJson_of_denotes h]
      split_ifs with hzero
      · rw [show dimension = 0 from hzero]
        rfl
      · exact ofConfig_eq _
  | default h => exact ⟨.standard, Backend.standard_sound, by rw [h]; rfl⟩

omit [Element α] in
theorem alike_of_emptyOn {metric : Metric α} {b b' : Backend} (hb : b.Sound) (hb' : b'.Sound)
    {ix jx : Index K α} (hi : emptyOn dimension metric b = .ok ix)
    (hj : emptyOn dimension metric b' = .ok jx) : ix.Alike jx := by
  obtain ⟨wf, hr, hbackend⟩ := emptyOn_eq_ok hi
  obtain ⟨wf', hr', hbackend'⟩ := emptyOn_eq_ok hj
  exact ⟨wf, wf', hbackend ▸ hb, hbackend' ▸ hb', hr.trans hr'.symm⟩

/-- Every way to an index refuses dimension zero. Otherwise all of them lead to indexes that no run
of commands and copies tells apart, in whatever orders the slots are renumbered. -/
theorem routes_agree (k : Metric.Kind) (dimension : Nat) :
    (dimension = 0 →
      (∀ r : Except Error (Index K α), Route k dimension r → r = .error .invalidDimension) ∧
      ∀ text : String, Config.Denotes text.toList ⟨dimension, k⟩ →
        Config.ofJson text = .error .invalidDimension) ∧
    (0 < dimension →
      ∀ r r' : Except Error (Index K α), Route k dimension r → Route k dimension r' →
        ∃ ix jx, r = .ok ix ∧ r' = .ok jx ∧ ix.dimension = dimension ∧ ix.metric = k.direct ∧
          ∀ entries entries', entries.map Prod.snd = entries'.map Prod.snd →
            ((Session.start ix).run entries).1.map Session.Call.seen =
              ((Session.start jx).run entries').1.map Session.Call.seen) ∧
    ∀ text c, Config.ofJson text = .ok c → ∃ ix : Index K α, ofConfig c = .ok ix := by
  refine ⟨?_, ?_, ?_⟩
  · rintro rfl
    refine ⟨fun r hr => ?_, fun text h => Config.ofJson_eq_invalidDimension_iff.2 ⟨_, h, rfl⟩⟩
    obtain ⟨b, -, rfl⟩ := hr.eq_emptyOn
    rfl
  · intro hd r r' hr hr'
    obtain ⟨b, hb, rfl⟩ := hr.eq_emptyOn
    obtain ⟨b', hb', rfl⟩ := hr'.eq_emptyOn
    have hi : emptyOn dimension k.direct b =
        .ok (⟨dimension, hd, k.direct, b, [], ∅, []⟩ : Index K α) := dif_pos hd
    have hj : emptyOn dimension k.direct b' =
        .ok (⟨dimension, hd, k.direct, b', [], ∅, []⟩ : Index K α) := dif_pos hd
    refine ⟨_, _, hi, hj, rfl, rfl, fun entries entries' same => ?_⟩
    exact Session.Alike.run (.cons (alike_of_emptyOn hb hb' hi hj) .nil) same
  · intro text c hc
    have hpos := (Config.ofJson_eq_ok_iff.1 hc).2
    exact ⟨_, (ofConfig_eq c).trans (dif_pos hpos)⟩

theorem denotes_list {n : Nat} (hn : n ≤ Json.wordLimit) :
    Config.Denotes ('[' :: (Nat.toDigits 10 n ++ ",\"l1\"]".toList)) ⟨n, .manhattan⟩ := by
  have hmetric : Config.MetricText "\"l1\"".toList .manhattan :=
    .name (.plain (s := "l1") (by decide)) .l1
  have htext := Config.Denotes.mk .nil
    (.list (.pair .nil (Json.numeral_toDigits hn) .nil .nil hmetric .nil)) .nil
  convert htext using 1
  simp

/-- An index from a text with an alias in it beside one that got its metric directly. The slot
behind a removed key is renumbered on both. -/
theorem routes_agree_of_list :
    0 = 0 ∧ Config.ofJson "[0,\"l1\"]" = .error .invalidDimension ∧ 0 < 2 ∧
      ∃ ix jx : Index Nat UInt8, emptyWith 2 Metric.manhattan = .ok ix ∧
        (Config.ofJson "[2,\"l1\"]" >>= ofConfig) = .ok jx ∧
        ∀ order order' : KeyOrder Nat,
          let actions := [(0, .command (.set 7 [1, 2])), (0, .command (.set 9 [3, 4])), (0, .copy),
            (0, .command (.remove 7)), (0, .command (.nearestWithDistances [0, 0] 2))]
          ((Session.start ix).run (actions.map (order, ·))).1.map Session.Call.seen =
            ((Session.start jx).run (actions.map (order', ·))).1.map Session.Call.seen := by
  have hzero : Config.Denotes "[0,\"l1\"]".toList ⟨0, .manhattan⟩ :=
    denotes_list (n := 0) (by decide)
  have htwo : Config.Denotes "[2,\"l1\"]".toList ⟨2, .manhattan⟩ :=
    denotes_list (n := 2) (by decide)
  obtain ⟨hrefused, -, -⟩ := routes_agree (K := Nat) (α := UInt8) .manhattan 0
  obtain ⟨-, hbuilt, -⟩ := routes_agree (K := Nat) (α := UInt8) .manhattan 2
  obtain ⟨ix, jx, hi, hj, -, -, hruns⟩ := hbuilt (by decide) _ _ .direct (.json htwo)
  refine ⟨rfl, (hrefused rfl).2 _ hzero, by decide, ix, jx, hi, hj, fun order order' => ?_⟩
  exact hruns _ _ rfl

end Index

end Vicinity
