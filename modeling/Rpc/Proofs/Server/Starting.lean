import Mathlib
import Rpc.Proofs.RateLimiter.Resolution
import Rpc.Server.Start

/-!
# Which servers start

The rate of traffic control is checked twice, in a configuration and when its bucket is made, and the two checks do not
agree on all doubles.

- `ServerConfig.validate_eq_ok_iff`: what is checked of a configuration, and `ServerConfig.validate_of_ofToml`: no other
  settings are read from a document;
- `Server.starts_unless_unusable`: the main statement.
-/

namespace Rpc

theorem Binary64.isNaN_of_isFinite {x : Binary64} (h : x.isFinite = true) : x.isNaN = false := by
  unfold isNaN
  rw [beq_eq_false_iff_ne.mpr (bne_iff_ne.mp h), Bool.false_and]

/-! ## Configurations -/

namespace ServerConfig

variable {c : ServerConfig}

/-- What is checked of a configuration: a rate passes also if it is no number. -/
theorem validate_eq_ok_iff :
    c.validate = .ok () ↔
      c.maxConcurrentInvocations ≠ 0 ∧
        (c.traffic.enabled = true →
          c.traffic.permitsPerSecond.isNaN = true ∨ c.traffic.permitsPerSecond.isPositive = true) := by
  unfold validate
  by_cases hnone : c.maxConcurrentInvocations = 0 <;> cases c.traffic.enabled <;>
    cases c.traffic.permitsPerSecond.isNaN <;> cases c.traffic.permitsPerSecond.isPositive <;> simp [hnone]

/-- What is read from a document was checked. -/
theorem validate_of_ofToml {text : String} (h : ofToml text = .ok c) : c.validate = .ok () := by
  unfold ofToml at h
  split at h
  · rename_i d _
    cases hd : d.validate with
    | error e =>
      rw [hd] at h
      cases h
    | ok u =>
      rw [hd] at h
      cases h
      exact hd
  · cases h

end ServerConfig

/-! ## Servers -/

namespace Server

variable {σ : Type} {c : ServerConfig}

/-- On a free address nothing but traffic control keeps a server with a checked configuration from starting. -/
theorem start_of_validate (h : c.validate = .ok ()) (services : ServiceTable) (filters : FilterChain σ)
    (codecs : CodecRegistry) (now : Instant) :
    start c services filters codecs true now = (trafficControl c.traffic now).map fun traffic =>
      ⟨c, ⟨traffic ++ filters, services, codecs⟩, ⟨codecs, c.maxFrameLength⟩⟩ := by
  unfold start
  rw [h]
  cases (trafficControl c.traffic now : Except ServerError (FilterChain σ)) <;> rfl

/-- **A server with a checked configuration starts unless its rate cannot be used.** Let a configuration with traffic
control be checked. A server with it on a free address starts if the rate is a finite number of half a thousandth at
least; its bucket comes in front of all filters then. Any other rate that the check lets pass, which is no number, an
infinity or too small, is refused under its own name when the bucket is made, and the server does not start. The check
for its part refuses no rate of which a bucket can be made. -/
theorem starts_unless_unusable (h : c.validate = .ok ()) (henabled : c.traffic.enabled = true)
    (services : ServiceTable) (filters : FilterChain σ) (codecs : CodecRegistry) (now : Instant) :
    let rate := c.traffic.permitsPerSecond
    let usable := rate.isFinite = true ∧ rate.absDen ≤ 2000 * rate.absNum
    let started := start c services filters codecs true now
    (usable → ∃ l, RateLimiter.new rate now = .ok l ∧
      started = .ok ⟨c, ⟨.traffic l :: filters, services, codecs⟩, ⟨codecs, c.maxFrameLength⟩⟩) ∧
    (¬ usable → RateLimiter.new rate now = .error ⟨rate⟩ ∧ started = .error (.rateLimit ⟨rate⟩)) ∧
    ∀ d : ServerConfig, d.maxConcurrentInvocations ≠ 0 →
      (∃ l, RateLimiter.new d.traffic.permitsPerSecond now = .ok l) → d.validate = .ok () := by
  intro rate usable started
  have hstarted : started = _ := start_of_validate h services filters codecs now
  rw [trafficControl, if_pos henabled] at hstarted
  obtain ⟨-, hchecked⟩ := ServerConfig.validate_eq_ok_iff.mp h
  refine ⟨fun husable => ?_, fun hunusable => ?_, fun d hsome hmade => ?_⟩
  · have hnumber : rate.isNaN = false := Binary64.isNaN_of_isFinite husable.1
    have hpositive : rate.isPositive = true := (hchecked henabled).resolve_left (Bool.eq_false_iff.mp hnumber)
    obtain ⟨l, hl⟩ := RateLimiter.new_ok_iff.mpr (Schedule.ofRate_ok_iff.mpr ⟨hpositive, husable⟩)
    refine ⟨l, hl, ?_⟩
    rw [hstarted, hl]
    rfl
  · have hrefused : RateLimiter.new rate now = .error ⟨rate⟩ := by
      cases hnew : RateLimiter.new rate now with
      | ok l => exact absurd (Schedule.ofRate_ok_iff.mp (RateLimiter.new_ok_iff.mp ⟨l, hnew⟩)).2 hunusable
      | error e => rw [RateLimiter.new_eq_error hnew]
    refine ⟨hrefused, ?_⟩
    rw [hstarted, hrefused]
    rfl
  · obtain ⟨hpositive, -⟩ := Schedule.ofRate_ok_iff.mp (RateLimiter.new_ok_iff.mp hmade)
    exact ServerConfig.validate_eq_ok_iff.mpr ⟨hsome, fun _ => .inr hpositive⟩

/-- A server starts with a permit every two thousand seconds, and does not start with the rate next below. -/
theorem starts_unless_unusable_least :
    let withRate (rate : Binary64) : ServerConfig := { ServerConfig.standard with traffic := ⟨true, rate⟩ }
    let started (rate : Binary64) : Except ServerError (Server Unit) := start (withRate rate) .empty [] .empty true 0
    (withRate ⟨0x3F40624DD2F1A9FC⟩).validate = .ok () ∧ (∃ s, started ⟨0x3F40624DD2F1A9FC⟩ = .ok s) ∧
      (withRate ⟨0x3F40624DD2F1A9FB⟩).validate = .ok () ∧
      started ⟨0x3F40624DD2F1A9FB⟩ = .error (.rateLimit ⟨⟨0x3F40624DD2F1A9FB⟩⟩) := by
  intro withRate started
  have hsome : ServerConfig.standard.maxConcurrentInvocations ≠ 0 := by decide
  have hvalid (rate : Binary64) (h : rate.isPositive = true) : (withRate rate).validate = .ok () :=
    ServerConfig.validate_eq_ok_iff.mpr ⟨hsome, fun _ => .inr h⟩
  have hleast := hvalid ⟨0x3F40624DD2F1A9FC⟩ (by decide)
  have hbelow := hvalid ⟨0x3F40624DD2F1A9FB⟩ (by decide)
  obtain ⟨hstarts, -⟩ := starts_unless_unusable hleast rfl .empty ([] : FilterChain Unit) .empty 0
  obtain ⟨-, hrefused, -⟩ := starts_unless_unusable hbelow rfl .empty ([] : FilterChain Unit) .empty 0
  obtain ⟨l, -, hl⟩ := hstarts (by decide)
  exact ⟨hleast, ⟨_, hl⟩, hbelow, (hrefused (by decide)).2⟩

/-- **A document can have a rate that passes the check and that no bucket can be made of:** it need not be a number, can
be an infinity, and can be too small. -/
theorem checked_rate_refused :
    (∃ c, ServerConfig.ofToml "[traffic_control]\npermits_per_second = nan" = .ok c ∧ c.validate = .ok () ∧
      c.traffic.enabled = true ∧ ¬ ∃ l, RateLimiter.new c.traffic.permitsPerSecond 0 = .ok l) ∧
    ∀ rate ∈ [Binary64.nan, .infinity false, ⟨0x3F1A36E2EB1C432D⟩],
      { ServerConfig.standard with traffic := ⟨true, rate⟩ }.validate = .ok () ∧
        RateLimiter.new rate 0 = .error ⟨rate⟩ := by
  constructor
  · have hdocument : Toml.parse? "[traffic_control]\npermits_per_second = nan" =
        some [("traffic_control", .table [("permits_per_second", .float .nan)])] := by cbv
    have hread : ServerConfig.ofToml "[traffic_control]\npermits_per_second = nan" =
        .ok { ServerConfig.standard with traffic := ⟨true, .nan⟩ } := by
      rw [ServerConfig.ofToml, hdocument]
      rfl
    exact ⟨_, hread, ServerConfig.validate_of_ofToml hread, rfl, by rintro ⟨l, ⟨⟩⟩⟩
  · simp only [List.forall_mem_cons]
    exact ⟨⟨rfl, rfl⟩, ⟨rfl, rfl⟩, ⟨rfl, rfl⟩, List.forall_mem_nil _⟩

end Server

end Rpc
