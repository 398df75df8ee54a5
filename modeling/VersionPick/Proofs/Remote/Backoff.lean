/-
The delays between attempts. Each is the first delay doubled as often as there
were retries before, up to the limit of 30 seconds, whatever the first delay
and however many retries (`backoff_doubles`). Two numbers on the way can come
past what they are counted in, the factor and the span; either is cut then, and
a span that has come that far is past the limit, or no time at all.
-/
import Mathlib.Algebra.Group.Nat.Defs
import VersionPick.Proofs.Remote.Download

namespace VersionPick

/-! ## The factor and the span -/

/-- The factor is the power of two, or the largest half word where that is larger. -/
theorem toNat_delayFactor (retry : UInt32) :
    (delayFactor retry).toNat = min (2 ^ (retry.toNat - 1)) (2 ^ 32 - 1) := by
  unfold delayFactor
  generalize retry.toNat - 1 = doublings
  by_cases h : doublings < 32
  · have hpow : 2 ^ doublings ≤ 2 ^ 31 := Nat.pow_le_pow_right (by decide) (by omega)
    have hfits : 2 ^ doublings < 2 ^ 32 := by omega
    simp only [h, if_true, Nat.pow_eq]
    rw [UInt32.toNat_ofNat_of_lt' hfits]
    omega
  · have hpow : 2 ^ 32 ≤ 2 ^ doublings := Nat.pow_le_pow_right (by decide) (by omega)
    simp only [h, if_false]
    rw [UInt32.toNat_ofNat_of_lt' (by decide)]
    change 2 ^ 32 - 1 = _
    omega

namespace Span

theorem nanos_times (s : Span) (count : UInt32) :
    (s.times count).nanos = min (s.nanos * count.toNat) longest.nanos := by
  unfold times
  split
  next h => exact (Nat.min_eq_left (Nat.le_sub_one_of_lt h)).symm
  next h => exact (Nat.min_eq_right (Nat.sub_le_of_le_add (Nat.le_succ_of_le (Nat.le_of_not_lt h)))).symm

theorem nanos_shorter (s t : Span) : (s.shorter t).nanos = min s.nanos t.nanos := by
  unfold shorter
  split
  next h => exact (Nat.min_eq_left h).symm
  next h => exact (Nat.min_eq_right (Nat.le_of_not_le h)).symm

end Span

theorem nanos_delayLimit : (Span.ofMillis delayLimit).nanos = 30000 * 1000000 := by decide

/-- The longest span is past the limit, so it makes no difference that spans
are not counted further. -/
theorem nanos_backoffSpan_eq_factor (first : UInt64) (retry : UInt32) :
    (backoffSpan first retry).nanos = min 30000 (first.toNat * (delayFactor retry).toNat) * 1000000 := by
  have hlongest : 30000 * 1000000 ≤ Span.longest.nanos := by decide
  have hmillis : (Span.ofMillis first).nanos * (delayFactor retry).toNat =
      first.toNat * (delayFactor retry).toNat * 1000000 := Nat.mul_right_comm _ _ _
  rw [backoffSpan, Span.nanos_shorter, Span.nanos_times, nanos_delayLimit, Nat.min_assoc, Nat.min_eq_right hlongest,
    hmillis]
  omega

/-- Some delay with the largest factor is past the limit, as it would be with
a larger one; and no delay is none with either. -/
theorem nanos_backoffSpan (first : UInt64) (retry : UInt32) :
    (backoffSpan first retry).nanos = min 30000 (first.toNat * 2 ^ (retry.toNat - 1)) * 1000000 := by
  rw [nanos_backoffSpan_eq_factor, toNat_delayFactor]
  generalize 2 ^ (retry.toNat - 1) = power
  rcases Nat.le_total power (2 ^ 32 - 1) with hfits | hcut
  · rw [Nat.min_eq_left hfits]
  · rw [Nat.min_eq_right hcut]
    rcases Nat.eq_zero_or_pos first.toNat with hzero | hpos
    · rw [hzero, Nat.zero_mul, Nat.zero_mul]
    · have hlargest : 2 ^ 32 - 1 ≤ first.toNat * (2 ^ 32 - 1) := Nat.le_mul_of_pos_left _ hpos
      have hpower : power ≤ first.toNat * power := Nat.le_mul_of_pos_left _ hpos
      omega

theorem backoff_eq (first : UInt64) (retry : UInt32) :
    backoff first retry = min 30000 (first.toNat * 2 ^ (retry.toNat - 1)) := by
  rw [backoff, Span.millis, nanos_backoffSpan, Nat.mul_div_cancel _ (by decide)]

/-! ## The waits of a download -/

/-- The delay of a wait. -/
def ClientAction.delay? : ClientAction → Option Nat
  | request .. => none
  | wait delay => some delay

theorem delays_repeated (url : String) (first : UInt64) : ∀ {times : Nat}, times < 2 ^ 32 →
    (repeated url first times).filterMap ClientAction.delay? =
      (List.range times).map fun i => min 30000 (first.toNat * 2 ^ i)
  | 0, _ => rfl
  | times + 1, h => by
    have hretry : (UInt32.ofNat (times + 1)).toNat - 1 = times := by
      rw [UInt32.toNat_ofNat_of_lt' h, Nat.add_sub_cancel]
    rw [repeated_succ, List.filterMap_append, delays_repeated url first (Nat.lt_of_succ_lt h), List.range_succ,
      List.map_append]
    simp only [List.filterMap_cons, ClientAction.delay?, List.filterMap_nil, backoff_eq, hretry, List.map_cons,
      List.map_nil]

namespace Client

/-- Whatever is answered, a download consists of requests with waits between
them, and of no more retries than the settings allow. -/
theorem exists_repeated (settings : Settings) (answers : Answers) : ∃ retries ≤ settings.maxRetries.toNat,
    (((scripted answers).fetchCatalogue settings).run []).2 =
      repeated settings.versionsUrl settings.retryDelay retries ++ [.request .get settings.versionsUrl] := by
  rcases conclusive_cases answers settings.maxRetries.toNat with hall | ⟨k, hk, hconclusive, hbefore⟩
  · exact ⟨_, Nat.le_refl _, by rw [run_fetchCatalogue_spent settings hall]⟩
  · obtain ⟨document, hrun, -⟩ := attempt_conclusive settings.versionsUrl settings.retryDelay hconclusive hbefore
      (settings.maxRetries.toNat - k)
    rw [Nat.sub_add_cancel hk] at hrun
    exact ⟨k, hk, by rw [run_fetchCatalogue hrun]⟩

/-- **The delay before a retry** is the first delay doubled for each retry
before it, or 30 seconds where that is longer, to the nanosecond; so it never
exceeds the limit and never gets shorter. No number on the way wraps around:
the factor and the span are the exact ones, or the largest that can be counted.
The waits of a download are these delays in their order. -/
theorem backoff_doubles (first : UInt64) :
    (∀ retry, backoff first retry = min 30000 (first.toNat * 2 ^ (retry.toNat - 1)) ∧
      (backoffSpan first retry).nanos = backoff first retry * 1000000) ∧
    (∀ retry, backoff first retry ≤ 30000) ∧
    (∀ retry next : UInt32, retry ≤ next → backoff first retry ≤ backoff first next) ∧
    (∀ retry, (delayFactor retry).toNat = min (2 ^ (retry.toNat - 1)) (2 ^ 32 - 1)) ∧
    (∀ factor, ((Span.ofMillis first).times factor).nanos =
      min (first.toNat * 1000000 * factor.toNat) (2 ^ 64 * 1000000000 - 1)) ∧
    ∀ (settings : Settings) (answers : Answers), ∃ retries ≤ settings.maxRetries.toNat,
      (((scripted answers).fetchCatalogue { settings with retryDelay := first }).run []).2.filterMap
        ClientAction.delay? = (List.range retries).map fun i => min 30000 (first.toNat * 2 ^ i) := by
  refine ⟨fun retry => ⟨backoff_eq first retry, ?_⟩, fun retry => ?_, fun retry next h => ?_, toNat_delayFactor,
    Span.nanos_times (Span.ofMillis first), fun settings answers => ?_⟩
  · rw [nanos_backoffSpan, backoff_eq]
  · rw [backoff_eq]
    exact Nat.min_le_left _ _
  · have hpower : 2 ^ (retry.toNat - 1) ≤ 2 ^ (next.toNat - 1) :=
      Nat.pow_le_pow_right (by decide) (Nat.sub_le_sub_right h 1)
    have hdelay := Nat.mul_le_mul_left first.toNat hpower
    rw [backoff_eq, backoff_eq]
    omega
  · obtain ⟨retries, hretries, hactions⟩ := exists_repeated { settings with retryDelay := first } answers
    refine ⟨retries, hretries, ?_⟩
    rw [hactions, List.filterMap_append, delays_repeated _ _ (Nat.lt_of_le_of_lt hretries settings.maxRetries.toNat_lt)]
    exact List.append_nil _

/-- The longest first delay: before the twelfth retry the span is past
counting, and before the fortieth the factor is too. -/
theorem backoff_doubles_longest :
    let first : UInt64 := 18446744073709551615
    first.toNat * 1000000 * (delayFactor 12).toNat ≥ 2 ^ 64 * 1000000000 ∧ (delayFactor 40).toNat < 2 ^ 39 ∧
    backoff first 12 = 30000 ∧ backoff 1 12 = 2048 ∧ backoff 0 40 = 0 ∧ backoff first 12 ≤ backoff first 40 := by
  intro first
  obtain ⟨hdelay, -, hmono, -⟩ := backoff_doubles first
  have hlongest : backoff first 12 = 30000 := (hdelay 12).1.trans (by decide +kernel)
  have hone : backoff 1 12 = 2048 := ((backoff_doubles 1).1 12).1.trans (by decide +kernel)
  have hzero : backoff 0 40 = 0 := ((backoff_doubles 0).1 40).1.trans (by decide +kernel)
  exact ⟨by decide +kernel, by decide +kernel, hlongest, hone, hzero, hmono 12 40 (by decide)⟩

end Client

end VersionPick
