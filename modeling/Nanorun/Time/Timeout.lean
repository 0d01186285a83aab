import Nanorun.Time.NextTick
import Nanorun.Time.Stores

/-!
# How long the driver waits

The wait of an idle driver-worker goes through three roundings. The wheel counts in
ticks of a millisecond, deadlines rounded up and the cursor rounded down; `idle` takes
the time left until the next tick in nanoseconds; the backend cuts it to the whole
milliseconds that `epoll_wait` and `GetQueuedCompletionStatusEx` take, and saturates
below the value that means no timeout.

Cutting ends the wait before the tick whenever the clock is not at a whole millisecond
since the epoch, and `advance`, which rounds down, then finds nothing due
(`timer_progress`). The saturation of the Windows backend leaves out the one duration
that converts to `INFINITE` itself (`wait_bounded`).
-/

namespace Nanorun.Time

variable {W : Type}

/-- `Duration::as_millis` -/
def asMillis (d : Nat) : Nat := d / 1000000

/-- `i32::MAX` -/
abbrev i32Max : Nat := 2 ^ 31 - 1

/-- `INFINITE` -/
abbrev infinite : Nat := 2 ^ 32 - 1

/-- The timeout of `idle`: what is left until the next deadline, zero when it has passed. -/
def Driver.timeout (d : Driver W) (now : Nat) : Option Nat :=
  d.nextDeadline.map fun deadline => deadline - now

/-- `timeout_ms` of the Linux `Inner::poll`, an `i32`. -/
def epollTimeoutMs : Option Nat → Int
  | none => -1
  | some d => if asMillis d ≤ i32Max then asMillis d else i32Max

/-- `timeout_ms` of `iocp::wait`, a `u32`. -/
def iocpTimeoutMs : Option Nat → Nat
  | none => infinite
  | some d => if asMillis d < 2 ^ 32 then asMillis d else infinite - 1

/-- The backends that pass their timeout to the kernel in milliseconds. -/
inductive Native where
  | linux
  | windows
  deriving DecidableEq, Repr

/-- How many milliseconds the kernel waits without an event; `none` is for ever. -/
def Native.wait : Native → Option Nat → Option Nat
  | .linux, timeout =>
      if epollTimeoutMs timeout = -1 then none else some (epollTimeoutMs timeout).toNat
  | .windows, timeout =>
      if iocpTimeoutMs timeout = infinite then none else some (iocpTimeoutMs timeout)

/-- The entries `advance` takes out of the wheel. -/
def Driver.drained (d : Driver W) (now : Nat) : List Entry :=
  (d.wheel.advanceTo (instantToTickFloor d.epoch now)).2

/-- The kernel waits for ever exactly without a timeout, and never longer than one. -/
def Bounded (native : Native) (timeout : Option Nat) : Prop :=
  (native.wait timeout = none ↔ timeout = none)
    ∧ ∀ d ms, timeout = some d → native.wait timeout = some ms → ms * 1000000 ≤ d

/-! ## The conversions -/

theorem linux_wait_some (d : Nat) :
    Native.linux.wait (some d) = some (min (asMillis d) i32Max) := by
  have hms : epollTimeoutMs (some d) = (min (asMillis d) i32Max : Nat) := by
    unfold epollTimeoutMs
    simp only
    split
    · rename_i hle
      rw [Nat.min_eq_left hle]
    · rename_i hlt
      rw [Nat.min_eq_right (by omega)]
  have hne : epollTimeoutMs (some d) ≠ -1 := by
    rw [hms]
    omega
  unfold Native.wait
  simp only
  rw [if_neg hne, hms, Int.toNat_natCast]

/-- The saturation is one below `INFINITE`, and the largest `u32` is not saturated. -/
theorem windows_wait_some (d : Nat) :
    Native.windows.wait (some d)
      = if asMillis d = infinite then none else some (min (asMillis d) (infinite - 1)) := by
  unfold Native.wait iocpTimeoutMs
  simp only
  by_cases hlt : asMillis d < 2 ^ 32
  · rw [if_pos hlt]
    by_cases hinf : asMillis d = infinite
    · rw [if_pos hinf, if_pos hinf]
    · rw [if_neg hinf, if_neg hinf]
      have hle : asMillis d ≤ infinite - 1 := by
        unfold infinite at *
        omega
      rw [Nat.min_eq_left hle]
  · rw [if_neg hlt]
    have hinf : asMillis d ≠ infinite := by
      unfold infinite
      omega
    have hsat : infinite - 1 ≠ infinite := by decide
    rw [if_neg hsat, if_neg hinf]
    have hle : infinite - 1 ≤ asMillis d := by
      unfold infinite
      omega
    rw [Nat.min_eq_right hle]

theorem asMillis_mul_le {d ms : Nat} (h : ms ≤ asMillis d) : ms * 1000000 ≤ d := by
  unfold asMillis at h
  omega

theorem bounded_none (native : Native) : Bounded native none := by
  refine ⟨?_, ?_⟩
  · cases native <;> exact ⟨fun _ => rfl, fun _ => rfl⟩
  · intro d ms hd
    exact absurd hd (by simp)

theorem bounded_linux (timeout : Option Nat) : Bounded .linux timeout := by
  cases timeout with
  | none => exact bounded_none .linux
  | some d =>
      refine ⟨by rw [linux_wait_some]; simp, ?_⟩
      intro d' ms hd hms
      obtain rfl := Option.some.inj hd
      rw [linux_wait_some] at hms
      obtain rfl := Option.some.inj hms
      exact asMillis_mul_le (Nat.min_le_left _ _)

theorem bounded_windows (timeout : Option Nat) :
    Bounded .windows timeout ↔ ∀ d, timeout = some d → asMillis d ≠ infinite := by
  cases timeout with
  | none =>
      refine ⟨fun _ d hd => ?_, fun _ => bounded_none .windows⟩
      exact absurd hd (by simp)
  | some d =>
      constructor
      · intro h d' hd hinf
        obtain rfl := Option.some.inj hd
        have hnone : Native.windows.wait (some d) = none := by
          rw [windows_wait_some, if_pos hinf]
        exact absurd (h.1.mp hnone) (by simp)
      · intro h
        have hinf := h d rfl
        refine ⟨by rw [windows_wait_some, if_neg hinf]; simp, ?_⟩
        intro d' ms hd hms
        obtain rfl := Option.some.inj hd
        rw [windows_wait_some, if_neg hinf] at hms
        obtain rfl := Option.some.inj hms
        exact asMillis_mul_le (Nat.min_le_left _ _)

/--
**A bounded wait stays bounded, except for one duration.**

For every timeout, and so for the one of `idle` with any wheel at any time: the Linux
backend waits for ever exactly without a timeout and never longer than the timeout, and
the Windows backend does so if and only if the timeout is not of `u32::MAX` milliseconds.
-/
theorem wait_bounded (timeout : Option Nat) (driver : Driver W) (now : Nat) :
    Bounded .linux timeout
    ∧ (Bounded .windows timeout ↔ ∀ d, timeout = some d → asMillis d ≠ infinite)
    ∧ ((∀ native, Bounded native (driver.timeout now)) ↔
        ∀ deadline, driver.nextDeadline = some deadline → asMillis (deadline - now) ≠ infinite) := by
  refine ⟨bounded_linux timeout, bounded_windows timeout, ?_⟩
  have hdriver : (∀ d, driver.timeout now = some d → asMillis d ≠ infinite)
      ↔ ∀ deadline, driver.nextDeadline = some deadline → asMillis (deadline - now) ≠ infinite := by
    unfold Driver.timeout
    cases driver.nextDeadline with
    | none => simp
    | some deadline => simp
  rw [← hdriver, ← bounded_windows]
  constructor
  · intro h
    exact h .windows
  · intro h native
    cases native with
    | linux => exact bounded_linux _
    | windows => exact h

/-- A timer of `u32::MAX` milliseconds, less than fifty days, in an otherwise empty wheel. -/
def fiftyDays : Driver Nat := ((Driver.new 0).register (infinite * tickNs) 7).1

theorem wait_unbounded : fiftyDays.nextDeadline = some (infinite * tickNs)
    ∧ fiftyDays.timeout 0 = some (infinite * tickNs)
    ∧ iocpTimeoutMs (fiftyDays.timeout 0) = infinite ∧ ¬ Bounded .windows (fiftyDays.timeout 0) := by
  have hnext : fiftyDays.nextDeadline = some (infinite * tickNs) := by decide +kernel
  have htimeout : fiftyDays.timeout 0 = some (infinite * tickNs) := by
    rw [Driver.timeout, hnext]
    rfl
  refine ⟨hnext, htimeout, by rw [htimeout]; decide, ?_⟩
  rw [htimeout, bounded_windows]
  intro h
  exact h _ rfl (by decide)

/-! ## The wait and the tick -/

/-- With the earliest entry at `tick`, `next_tick` answers it. -/
theorem nextTick_eq {w : Wheel} (h : Books w) {e : Entry} (he : e ∈ w.stored)
    (hmin : ∀ e' ∈ w.stored, e.deadline ≤ e'.deadline) : w.nextTick = some e.deadline := by
  obtain ⟨t, ht, hle⟩ := nextTick_le h he
  obtain ⟨e', he', hdl⟩ := mem_of_nextTick ht
  have hge := hmin e' he'
  rw [ht]
  exact congrArg some (by omega)

/-- An `advance` drains something exactly from the earliest tick on. -/
theorem drained_iff {d : Driver W} (h : WheelInv d.wheel) {e : Entry} (he : e ∈ d.wheel.stored)
    (hmin : ∀ e' ∈ d.wheel.stored, e.deadline ≤ e'.deadline) {now : Nat}
    (hnow : instantToTickFloor d.epoch now ≤ cursorMax) :
    d.drained now ≠ [] ↔ e.deadline ≤ instantToTickFloor d.epoch now := by
  obtain ⟨_, _, hdrained, _, _⟩ := advanceTo_spec h hnow
  have hmem : ∀ e', e' ∈ d.drained now ↔ e' ∈ d.wheel.stored
      ∧ e'.deadline ≤ instantToTickFloor d.epoch now := by
    intro e'
    have hin : e' ∈ ((d.wheel.advanceTo (instantToTickFloor d.epoch now)).2 : Multiset Entry)
        ↔ e' ∈ d.wheel.stored ∧ e'.deadline ≤ instantToTickFloor d.epoch now := by
      rw [hdrained, Multiset.mem_filter]
    exact hin
  constructor
  · intro hne
    obtain ⟨e', he'⟩ := List.exists_mem_of_ne_nil _ hne
    obtain ⟨hst, hle⟩ := (hmem e').mp he'
    exact Nat.le_trans (hmin e' hst) hle
  · intro hle hnil
    have hin := (hmem e).mpr ⟨he, hle⟩
    rw [hnil] at hin
    exact absurd hin List.not_mem_nil

/-- The three roundings: the cut wait ends at the tick exactly in phase with the epoch. -/
theorem floor_after_wait {epoch now tick : Nat} (hpos : 0 < tick) (hmax : tick < 2 ^ 64)
    (hle : now ≤ tickToInstant epoch tick) :
    instantToTickFloor epoch (now + asMillis (tickToInstant epoch tick - now) * 1000000) ≤ tick
    ∧ (tick ≤ instantToTickFloor epoch
          (now + asMillis (tickToInstant epoch tick - now) * 1000000)
        ↔ now % tickNs = epoch % tickNs) := by
  unfold tickToInstant tickNs at *
  unfold instantToTickFloor asMillis saturate tickNs
  have hlater : (now + (epoch + tick * 1000000 - now) / 1000000 * 1000000 - epoch) / 1000000 ≤ tick := by
    omega
  rw [if_pos (by omega)]
  refine ⟨hlater, ?_⟩
  omega

/--
**A timer sleep makes progress exactly in phase with the epoch.**

For every wheel with its earliest entry at a tick still ahead, by at most `i32::MAX`
milliseconds: both native backends wait for the whole milliseconds left, and `advance`
after that wait drains an entry if and only if `now` is a whole number of milliseconds
from the epoch.
-/
theorem timer_progress {d : Driver W} (h : WheelInv d.wheel) {e : Entry}
    (he : e ∈ d.wheel.stored) (hmin : ∀ e' ∈ d.wheel.stored, e.deadline ≤ e'.deadline)
    (hmax : e.deadline ≤ cursorMax) {now : Nat} (hle : now ≤ tickToInstant d.epoch e.deadline)
    (hnear : tickToInstant d.epoch e.deadline - now ≤ i32Max * 1000000) (native : Native) :
    ∃ ms, native.wait (d.timeout now) = some ms
      ∧ (d.drained (now + ms * 1000000) ≠ [] ↔ now % tickNs = d.epoch % tickNs) := by
  have htimeout : d.timeout now = some (tickToInstant d.epoch e.deadline - now) := by
    rw [Driver.timeout, Driver.nextDeadline, nextTick_eq h.books he hmin]
    rfl
  have hms : asMillis (tickToInstant d.epoch e.deadline - now) ≤ i32Max := by
    unfold asMillis
    omega
  have hwait : native.wait (d.timeout now)
      = some (asMillis (tickToInstant d.epoch e.deadline - now)) := by
    rw [htimeout]
    cases native with
    | linux => rw [linux_wait_some, Nat.min_eq_left hms]
    | windows =>
        have hinf : asMillis (tickToInstant d.epoch e.deadline - now) ≠ infinite := by
          unfold infinite
          unfold i32Max at hms
          omega
        rw [windows_wait_some, if_neg hinf, Nat.min_eq_left]
        unfold infinite
        unfold i32Max at hms
        omega
  refine ⟨_, hwait, ?_⟩
  have hpos : 0 < e.deadline := Nat.lt_of_le_of_lt (Nat.zero_le _) (h.cursor_lt he)
  obtain ⟨hfloor, hphase⟩ := floor_after_wait hpos (by unfold cursorMax at hmax; omega) hle
  rw [drained_iff h he hmin (Nat.le_trans hfloor hmax)]
  exact hphase

/-- A timer of five milliseconds in an otherwise empty wheel. -/
def fiveMillis : Driver Nat := ((Driver.new 0).register 5000000 7).1

theorem fiveMillis_wheel : WheelInv fiveMillis.wheel ∧ fiveMillis.wheel.stored = {⟨0, 5⟩} := by
  obtain ⟨_, _, _, hinv, hst⟩ := registerAt_armed (d := (Driver.new 0 : Driver Nat)) 5 7
    wheelInv_new (by decide) (by decide)
  have htick : instantToTickCeil (Driver.new 0 : Driver Nat).epoch 5000000 = 5 := by decide
  have hnew : (Driver.new 0 : Driver Nat).wheel.stored = 0 := new_stored
  have hmin : min 5 ((Driver.new 0 : Driver Nat).wheel.cursor + 64 ^ 6 - 1) = 5 := by decide
  rw [hnew, hmin, zero_add] at hst
  rw [fiveMillis, Driver.register, htick]
  exact ⟨hinv, hst⟩

theorem timer_progress_fiveMillis : ∃ ms, Native.linux.wait (fiveMillis.timeout 1000000) = some ms
    ∧ fiveMillis.drained (1000000 + ms * 1000000) ≠ [] := by
  obtain ⟨hinv, hst⟩ := fiveMillis_wheel
  have he : (⟨0, 5⟩ : Entry) ∈ fiveMillis.wheel.stored := by
    rw [hst]
    exact Multiset.mem_singleton_self _
  have hmin : ∀ e' ∈ fiveMillis.wheel.stored, (⟨0, 5⟩ : Entry).deadline ≤ e'.deadline := by
    intro e' he'
    rw [hst] at he'
    rw [Multiset.mem_singleton.mp he']
  have hle : 1000000 ≤ tickToInstant fiveMillis.epoch 5 := by decide
  obtain ⟨ms, hms, hdrained⟩ := timer_progress hinv he hmin (by decide) hle (by decide) .linux
  exact ⟨ms, hms, hdrained.mpr (by decide)⟩

/-- Half a millisecond out of phase, the wait of both backends ends before the tick. -/
theorem timer_no_progress : fiveMillis.wheel.stored = {⟨0, 5⟩}
    ∧ 500000 < tickToInstant fiveMillis.epoch 5
    ∧ Native.linux.wait (fiveMillis.timeout 500000) = some 4
    ∧ Native.windows.wait (fiveMillis.timeout 500000) = some 4
    ∧ fiveMillis.drained (500000 + 4 * 1000000) = [] :=
  ⟨fiveMillis_wheel.2, by decide, by decide +kernel, by decide +kernel, by decide +kernel⟩

end Nanorun.Time
