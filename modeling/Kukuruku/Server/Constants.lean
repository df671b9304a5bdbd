/-!
# Compile-time constants of the server

The values of `constants.h` and of the enumerations in `client_parser.h` that
the modelled functions read.
-/

namespace Kukuruku.Server

/-- Complex samples in one SDR frame. -/
def SDRPACKETSIZE : Nat := 512 * 1024

theorem SDRPACKETSIZE_eq : SDRPACKETSIZE = 524288 := rfl

/-- Slots of every ring buffer, `sdr_inbuf` and each worker's `outbuf`. -/
abbrev BUFSIZE : Int := 128

theorem BUFSIZE_eq : BUFSIZE = 128 := rfl

/-- The longest allowed filter. -/
def MAXTAPS : Nat := 4096

theorem MAXTAPS_eq : MAXTAPS = 4096 := rfl

/-- Frames recorded in one disk batch. -/
abbrev WRITE_FRAMES_SYNC : Nat := 2

/-- Bins of one histogram. -/
abbrev HISTOGRAM_RES : Nat := 256

/-- Floats in one complex sample. -/
def COMPLEX : Nat := 2

theorem COMPLEX_eq : COMPLEX = 2 := rfl

/-- The sentinel of `rec_cptr` while nothing is recorded. -/
abbrev INT32_MIN : Int := -2147483648

abbrev INT32_MAX : Int := 2147483647

theorem INT32_range : INT32_MIN = -2147483648 ∧ INT32_MAX = 2147483647 := ⟨rfl, rfl⟩

end Kukuruku.Server
