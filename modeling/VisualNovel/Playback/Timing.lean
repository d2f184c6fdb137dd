import VisualNovel.Playback.Session
import VisualNovel.Timer.Agenda

/-!
The delays of playback, in seconds.
-/
namespace VisualNovel.Playback

structure Timing (τ : Type) where
  revealInterval : τ
  fastRevealInterval : τ
  fastForwardDelay : τ
  autoSecondsPerChar : τ
  autoMinDelay : τ
  autoMaxDelay : τ
  endGrace : τ
  /-- How many characters of a text a save keeps as a preview; a negative number leaves out as many
  at the end. -/
  previewLength : Int
deriving Inhabited

variable {τ : Type}

def Timing.revealIntervalFor (t : Timing τ) (pacing : Pacing) : τ :=
  if pacing = .fastForward then t.fastRevealInterval else t.revealInterval

/-- Time to read a text of some length, within the bounds. -/
def Timing.autoDelay [Mul τ] [NatCast τ] [LT τ] [DecidableLT τ] (t : Timing τ) (length : Nat) :
    τ :=
  Timer.earlier (Timer.later ((length : τ) * t.autoSecondsPerChar) t.autoMinDelay) t.autoMaxDelay

/-- How much of a text a save shows. -/
def preview (length : Int) (text : String) : String :=
  let count := if 0 ≤ length then length.toNat else text.length - length.natAbs
  prefixOf text count ++ "..."

end VisualNovel.Playback
