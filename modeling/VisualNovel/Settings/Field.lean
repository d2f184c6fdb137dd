import VisualNovel.Data.Value
import VisualNovel.Disk.Path

/-!
The settings there are, by name, and what may be given for one of them.
-/
namespace VisualNovel.Settings

inductive Field where
  | startNode
  | defaultBackground
  | assetManifest
  | revealInterval
  | fastRevealInterval
  | fastForwardDelay
  | autoPerChar
  | autoMinDelay
  | autoMaxDelay
  | endGrace
  | saveFile
  | saveKey
  | saveSlotCount
  | savePreviewLength
  | debug
  | logLevel
  | logFormat
  | logFile
deriving DecidableEq, Repr, Inhabited

namespace Field

def all : List Field :=
  [startNode, defaultBackground, assetManifest, revealInterval, fastRevealInterval,
    fastForwardDelay, autoPerChar, autoMinDelay, autoMaxDelay, endGrace, saveFile, saveKey,
    saveSlotCount, savePreviewLength, debug, logLevel, logFormat, logFile]

def name : Field → String
  | startNode => "start_node_id"
  | defaultBackground => "default_background"
  | assetManifest => "asset_manifest"
  | revealInterval => "reveal_interval_ms"
  | fastRevealInterval => "fast_reveal_interval_ms"
  | fastForwardDelay => "fast_forward_delay_ms"
  | autoPerChar => "auto_ms_per_char"
  | autoMinDelay => "auto_min_delay_ms"
  | autoMaxDelay => "auto_max_delay_ms"
  | endGrace => "end_grace_ms"
  | saveFile => "save_file"
  | saveKey => "save_key"
  | saveSlotCount => "save_slot_count"
  | savePreviewLength => "save_preview_length"
  | debug => "debug"
  | logLevel => "log_level"
  | logFormat => "log_format"
  | logFile => "log_file"

def ofName? (s : String) : Option Field := all.find? (·.name == s)

def paths : List Field := [assetManifest, saveFile, logFile]

end Field

/-- What a source gives for a setting: a value to be read, or a path that has been read already. -/
inductive Given where
  | plain (v : Data.Value)
  | path (p : Disk.Path)
deriving Inhabited

/-- What one source gives. -/
abbrev Layer := Field → Option Given

namespace Layer

def empty : Layer := fun _ => none

/-- The first layer wins wherever it gives something. -/
def above (upper lower : Layer) : Layer := fun f => (upper f).or (lower f)

def set (layer : Layer) (field : Field) (g : Given) : Layer :=
  fun f => if f = field then some g else layer f

end Layer

end VisualNovel.Settings
