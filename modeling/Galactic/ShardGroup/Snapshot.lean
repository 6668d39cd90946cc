import Galactic.Net.Printed
import Galactic.Uformat.Codec

/-!
# Shard group snapshots

What a shard group publishes to the datapath, one value of the map `egress_shard_groups`: a header, the Maglev table,
and the members by slot. A snapshot is replaced as a whole and never written once published.

A group translates one class. The snapshot encodes the class by its kind and its prefix address, and two classes are
compared by their texts. -/

namespace Galactic.ShardGroup

open Net (Addr Prefix)
open Uformat (Usid)

abbrev maxShardGroups : Nat := 4
abbrev maxShardsPerGroup : Nat := 32
abbrev shardMaglevTableSize : Nat := 1021

def shardSlotNone : UInt8 := 0xff

def groupFlagEnabled : UInt32 := 1
def groupFlagHashFlow : UInt32 := 2
def groupFlagClosing : UInt32 := 4

def shardFlagAlive : UInt32 := 1
def shardFlagDraining : UInt32 := 2
def shardFlagLocal : UInt32 := 4
def shardFlagStandby : UInt32 := 8
def shardFlagHeld : UInt32 := 16

def classKindNAT66 : UInt8 := 1
def classKindNAT64 : UInt8 := 2

abbrev Mac := List.Vector UInt8 6

def zeroMac : Mac := List.Vector.replicate 6 0

structure Member where
  sid : Usid := List.Vector.replicate 16 0
  linkIfindex : UInt32 := 0
  dmac : Mac := zeroMac
  smac : Mac := zeroMac
  flags : UInt32 := 0
  generation : UInt32 := 0
  deriving DecidableEq

namespace Member

def occupied (m : Member) : Bool := m.sid ≠ List.Vector.replicate 16 0

def has (m : Member) (flag : UInt32) : Bool := m.flags &&& flag ≠ 0

def alive (m : Member) : Bool := m.has shardFlagAlive
def draining (m : Member) : Bool := m.has shardFlagDraining
def isLocal (m : Member) : Bool := m.has shardFlagLocal
def standby (m : Member) : Bool := m.has shardFlagStandby
def held (m : Member) : Bool := m.has shardFlagHeld

def active (m : Member) : Bool := m.alive && !m.draining

end Member

abbrev Shards := Fin maxShardsPerGroup → Member

structure GroupValue where
  flags : UInt32 := 0
  generation : UInt32 := 0
  nextSlotGeneration : UInt32 := 0
  candidates : UInt16 := 0
  active : UInt16 := 0
  ineligible : UInt16 := 0
  classKind : UInt8 := 0
  pinIdleSec : UInt32 := 0
  classPrefix : List.Vector UInt8 16 := List.Vector.replicate 16 0
  maglev : Fin shardMaglevTableSize → UInt8 := fun _ => 0
  shards : Shards := fun _ => {}
  deriving DecidableEq

namespace GroupValue

def enabled (v : GroupValue) : Bool := v.flags &&& groupFlagEnabled ≠ 0
def hashFlow (v : GroupValue) : Bool := v.flags &&& groupFlagHashFlow ≠ 0
def closing (v : GroupValue) : Bool := v.flags &&& groupFlagClosing ≠ 0

end GroupValue

/-! ### Member flags -/

def memberFlags (alive draining isLocal standby held : Bool) : UInt32 :=
  (if alive then shardFlagAlive else 0) ||| (if draining then shardFlagDraining else 0) |||
    (if isLocal then shardFlagLocal else 0) ||| (if standby then shardFlagStandby else 0) |||
    (if held then shardFlagHeld else 0)

theorem has_memberFlags (m : Member) (alive draining isLocal standby held : Bool)
    (h : m.flags = memberFlags alive draining isLocal standby held) :
    m.alive = alive ∧ m.draining = draining ∧ m.isLocal = isLocal ∧ m.standby = standby ∧ m.held = held := by
  unfold Member.alive Member.draining Member.isLocal Member.standby Member.held Member.has
  rw [h]
  clear h
  revert alive draining isLocal standby held
  decide

/-! ### Translation classes -/

/-- NAT66, or NAT64 toward a prefix. -/
structure TranslationClass where
  nat64 : Bool
  prefix96 : Prefix
  deriving DecidableEq

def nat66Class : TranslationClass := ⟨false, .invalid⟩

def nat64Class (p : Prefix) : TranslationClass := ⟨true, p.masked⟩

def as16Array (a : Addr) : List.Vector UInt8 16 := ⟨a.as16, a.length_as16⟩

namespace TranslationClass

def string (c : TranslationClass) : String := if c.nat64 then "nat64:" ++ c.prefix96.string else "nat66"

def kind (c : TranslationClass) : UInt8 := if c.nat64 then classKindNAT64 else classKindNAT66

def prefixBytes (c : TranslationClass) : List.Vector UInt8 16 :=
  if c.nat64 then as16Array c.prefix96.addr else List.Vector.replicate 16 0

def encode (c : TranslationClass) (v : GroupValue) : GroupValue :=
  { v with classKind := c.kind, classPrefix := c.prefixBytes }

end TranslationClass

def classOf (kind : UInt8) (b : List.Vector UInt8 16) : Option TranslationClass :=
  if kind = classKindNAT66 then some nat66Class
  else if kind = classKindNAT64 then some (nat64Class (.ofAddr (.v6 b "") 96))
  else none

def decodeClass (v : GroupValue) : Option TranslationClass := classOf v.classKind v.classPrefix

def maskedBytes (b : List.Vector UInt8 16) : List.Vector UInt8 16 :=
  ⟨Net.IP.maskWith b.toList (Net.maskBytes 16 96), by simp [Net.IP.maskWith]⟩

theorem masked_ofAddr (b : List.Vector UInt8 16) :
    (Prefix.ofAddr (.v6 b "") 96).masked = Prefix.ofAddr (.v6 (maskedBytes b) "") 96 := rfl

theorem maskedBytes_maskedBytes (b : List.Vector UInt8 16) : maskedBytes (maskedBytes b) = maskedBytes b :=
  Subtype.ext (Net.maskWith_maskWith b.toList _)

theorem classOf_nat64 (b : List.Vector UInt8 16) :
    classOf classKindNAT64 b = some (nat64Class (.ofAddr (.v6 b "") 96)) := rfl

theorem decodeClass_of_string_eq {kind : UInt8} {b : List.Vector UInt8 16} {published c : TranslationClass}
    (hpub : classOf kind b = some published) (h : published.string = c.string) :
    classOf c.kind c.prefixBytes = some published := by
  unfold classOf at hpub
  split_ifs at hpub with h66 h64
  · cases hpub
    cases hnat : c.nat64 with
    | false => simp [TranslationClass.kind, hnat, classOf]
    | true =>
      have hhead := congrArg (fun s => s.toList.take 5) h
      simp [TranslationClass.string, nat66Class, hnat] at hhead
  cases hpub
  cases hnat : c.nat64 with
  | false =>
    have hhead := congrArg (fun s => s.toList.take 5) h
    simp [TranslationClass.string, nat64Class, hnat] at hhead
  | true =>
    have htext : (Prefix.ofAddr (.v6 b "") 96).masked.string = c.prefix96.string := by
      have htail := congrArg (fun s => s.toList.drop 6) h
      simp only [TranslationClass.string, nat64Class, hnat, if_true, String.toList_append] at htail
      exact String.toList_injective (by simpa using htail)
    have hpre : (Prefix.ofAddr (.v6 b "") 96).masked = c.prefix96 := Prefix.string_inj rfl htext
    have hbytes : c.prefixBytes = maskedBytes b := by
      rw [TranslationClass.prefixBytes, if_pos hnat, ← hpre]
      rfl
    rw [hbytes, TranslationClass.kind, if_pos hnat, classOf_nat64, nat64Class, nat64Class, masked_ofAddr,
      masked_ofAddr, maskedBytes_maskedBytes]

end Galactic.ShardGroup
