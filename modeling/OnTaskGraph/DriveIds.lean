import Mathlib.Data.List.Forall2
import OnTaskGraph.JsText

/-! `get_driveid.js`: the drives of a node, put together from the listings of
`/dev/disk/by-id` and `/dev/disk/by-path` and from `lsscsi`. `hdparm` gives what the
command prints for a device, or nothing if it fails. -/

namespace OnTaskGraph

open JsText

namespace DriveIds

/-- `/^([0-9A-Fa-f]{4}\s+){7}[0-9A-Fa-f]{4}$/` -/
def hexLineMatch (line : Text) : Bool :=
  (splitBlanks line).length = 8 && (splitBlanks line).all fun group =>
    group.length = 4 && group.all (digitValue · < 16)

/-- The character code that `Number('0x' + digits)` gives; it is 0 for `NaN`. -/
def charCode (digits : Text) : Nat :=
  let digits := digits.rdropWhile blank
  if digits.all (digitValue · < 16) then digits.foldl (fun n c => 16 * n + digitValue c) 0 else 0

def nameChar (ascii : Nat) : Text :=
  if ascii = 0x20 then ['_'] else if ascii = 0 then ['0', '0'] else [Char.ofNat ascii]

def nameStr : Text → Text
  | a :: b :: nameHexStr => nameChar (charCode [a, b]) ++ nameStr nameHexStr
  | [a] => nameChar (charCode [a])
  | [] => []

def rawHexStr (output : Text) : List Text :=
  ([' '].intercalate ((output.splitOn '\n').filter hexLineMatch)).splitOn ' '

def getSataNameStr (output : Text) : Text :=
  let snHexStr := (((rawHexStr output).drop 10).take 10).flatten
  let modelHexStr := (((rawHexStr output).drop 27).take 20).flatten
  nameStr (modelHexStr ++ snHexStr)

/-- `[split[8], split[10]].join('->')` -/
def columns (line : Text) : Text :=
  (splitBlanks line).getD 8 [] ++ "->".toList ++ (splitBlanks line).getD 10 []

/-- `/[sh]d[a-z]?[a-z]$/i`, of the text backwards. -/
def diskBackwards : Text → Bool
  | y :: x :: s =>
    y.isAlpha && (x.toLower = 'd' && s.head?.any (·.toLower ∈ ['s', 'h']) ||
      x.isAlpha && s.head?.any (·.toLower = 'd') && s.tail.head?.any (·.toLower ∈ ['s', 'h']))
  | _ => false

def endsLikeDisk (line : Text) : Bool := diskBackwards line.reverse

inductive Bus
  | scsi
  | ata
  | usb
  deriving DecidableEq

def Bus.name : Bus → Text
  | .scsi => "scsi".toList
  | .ata => "ata".toList
  | .usb => "usb".toList

/-- The list that a line is put into. -/
def busOf (line : Text) : Option Bus :=
  if line ≠ [] ∧ ¬ "part".toList <:+: line ∧ endsLikeDisk line = true then
    if indexOf "scsi".toList line = some 0 then some .scsi
    else if indexOf "ata".toList line = some 0 then some .ata
    else if indexOf "usb".toList line = some 0 then some .usb
    else none
  else none

/-- `[line.slice(nameIndex + 1), line.slice(0, idIndex)]` -/
def deviceAndLink (line : Text) : Text × Text :=
  (after line (lastIndexOf ['/'] line), before line (lastIndexOf "->".toList line))

def linesOf (bus : Bus) (idList : Text) : List (Text × Text) :=
  (((idList.splitOn '\n').map columns).filter (busOf · = some bus)).map deviceAndLink

section

variable (hdparm : Text → Option Text) (toUpperCase : Text → Text)

/-- The Nth dash becomes `ND`, where the first is the second. -/
def replaceDashes (strLine : Text) : Text :=
  match strLine.splitOn '-' with
  | [] => []
  | head :: rest => head ++ (rest.zipIdx 2).flatMap fun x => Nat.toDigits 10 x.2 ++ 'D' :: x.1

def esxiSata (esxiLine : Text × Text) : Option Text :=
  (hdparm esxiLine.1).map fun output =>
    let headStr := "t10.".toList ++ toUpperCase (before esxiLine.2 (indexOf ['-'] esxiLine.2)) ++ "_____".toList
    replaceDashes (headStr ++ getSataNameStr output)

/-- It throws when there is nothing to split. -/
def esxiScsi (esxiLine : Text × Text) : Option Text :=
  (esxiLine.2.splitOnP fun c => c = '-' || c = '_')[1]?.map fun id => "naa.".toList ++ id.drop 1

def esxiId : Bus → Text × Text → Option Text
  | .ata => esxiSata hdparm toUpperCase
  | .scsi => esxiScsi
  | .usb => fun _ => some "mpx.".toList

def esxiLines (bus : Bus) (idList : Text) : Option (List (Text × Text)) :=
  (linesOf bus idList).mapM fun esxiLine => (esxiId hdparm toUpperCase bus esxiLine).map (esxiLine.1, ·)

structure DriveWwids where
  esxiDriveIds : List (Text × Text)
  linuxDriveIds : List (Text × Text)

def parseDriveWwid (idList : Text) : Option DriveWwids := do
  let esxiSata ← esxiLines hdparm toUpperCase .ata idList
  let esxiScsi ← esxiLines hdparm toUpperCase .scsi idList
  let esxiUsb ← esxiLines hdparm toUpperCase .usb idList
  return ⟨esxiSata ++ (esxiScsi ++ esxiUsb),
    (linesOf .ata idList ++ (linesOf .scsi idList ++ linesOf .usb idList)).map fun linuxLine =>
      (linuxLine.1, "/dev/disk/by-id/".toList ++ linuxLine.2)⟩

end

structure VdInfo where
  device : Text
  vdStr : Text
  scsiId : Text

/-- The virtual disk of an address whose controller is not 0. -/
def vdStr (scsiId : Text) : Text :=
  match scsiId.splitOn ':' with
  | [host, channel, target, _] =>
    if channel ≠ ['0'] then "/c".toList ++ host ++ "/v".toList ++ target else []
  | _ => []

def parseVdInfo (pathList : Text) : List VdInfo :=
  let pciLines := ((pathList.splitOn '\n').map columns).filter fun line =>
    line ≠ [] ∧ ¬ "part".toList <:+: line ∧ indexOf "pci".toList line = some 0
  (pciLines.map deviceAndLink).map fun line =>
    let scsiId := after line.2 (lastIndexOf ['-'] line.2)
    ⟨line.1, vdStr scsiId, scsiId⟩

/-- The device and the address; `replace` takes away the first blank only. -/
def parseScsiInfo (lsscsiList : Text) : List (Option (Text × Text)) :=
  (lsscsiList.splitOn '\n').map fun line =>
    if line ≠ [] then
      some ((after line (lastIndexOf ['/'] line)).erase ' ', (before line (indexOf [']'] line)).drop 1)
    else none

structure Drive where
  scsiId : Text
  virtualDisk : Text
  esxiWwid : Text
  devName : Text
  identifier : Option Nat
  linuxWwid : Option Text

def vdOf (vdList : List VdInfo) (diskPath : Text) : Text :=
  vdList.foldl (fun vd elem => if elem.device = diskPath then elem.vdStr else vd) []

def scsiIdOf (scsiList : List (Option (Text × Text))) (diskPath : Text) : Text :=
  scsiList.foldl (fun scsiId elem =>
    match elem with
    | some elem => if elem.1 = diskPath then elem.2 else scsiId
    | none => scsiId) []

/-- The name of a usb drive comes from its address. -/
def mpxWwid (scsiId : Text) : Text :=
  match scsiId.splitOn ':' with
  | [_, channel, target, lun] =>
    "mpx.vmhba32:C".toList ++ channel ++ ":T".toList ++ target ++ ":L".toList ++ lun
  | _ => []

def driveOf (vdList : List VdInfo) (scsiList : List (Option (Text × Text))) (esxiWwid : Text × Text) : Drive :=
  let diskPath := esxiWwid.1
  let scsiId := scsiIdOf scsiList diskPath
  if esxiWwid.2 = "mpx.".toList then
    ⟨scsiId, [], if scsiId ≠ [] then mpxWwid scsiId else [], diskPath, none, none⟩
  else ⟨scsiId, vdOf vdList diskPath, esxiWwid.2, diskPath, none, none⟩

/-- The loop over `linuxWwids` from `k` on; it throws where there is no drive. -/
def identify (driveIds : List Drive) (k : Nat) : List (Text × Text) → Option (List Drive)
  | [] => some driveIds
  | linuxWwid :: linuxWwids =>
    if h : k < driveIds.length then
      identify (driveIds.set k { driveIds[k] with identifier := some k, linuxWwid := some linuxWwid.2 })
        (k + 1) linuxWwids
    else none

def driveMap (wwids : DriveWwids) (vdData scsiData : Text) : Option (List Drive) :=
  identify (wwids.esxiDriveIds.map (driveOf (parseVdInfo vdData) (parseScsiInfo scsiData))) 0 wwids.linuxDriveIds

/-- What is printed as JSON; `none` is the empty object. -/
def buildDriveMap (hdparm : Text → Option Text) (toUpperCase : Text → Text) (wwidData vdData scsiData : Text) :
    Option (List (Option Drive)) := do
  let driveIds ← driveMap (← parseDriveWwid hdparm toUpperCase wwidData) vdData scsiData
  return if driveIds.length = 0 then [none] else driveIds.map some

end DriveIds

end OnTaskGraph
