import Sexpect.Source.Proto

/-!
# Shared constants and string functions (common.h:10-160, common.c:989-1017)

Tags, error codes and flag bits carry the values of the enumerations.  `strstr`,
`strcasestr` and `strchr` work on the C string of their argument.  The regular
expression functions of the C library are a parameter; `Regex` states what
`regexec` promises about the offsets it stores.
-/
namespace Sexpect.Source
open Sexpect.Lib

/-- The octets of an ASCII text. -/
def ascii (s : String) : Bytes := s.toList.map fun c => UInt8.ofNat c.toNat

def version : Bytes := ascii "2.3.14"

def maxExpbufPeek : Nat := 4096

def maxSubst : Nat := 10

namespace Tag
def pass : Nat := 1
def winch : Nat := 2
def send : Nat := 3
def input : Nat := 4
def expout : Nat := 5
def close : Nat := 6
def kill : Nat := 7
def set : Nat := 8
def ack : Nat := 9
def output : Nat := 10
def matched : Nat := 11
def eof : Nat := 12
def exited : Nat := 13
def error : Nat := 14
def expoutText : Nat := 16
def expbuf : Nat := 17
def info : Nat := 18
def disconn : Nat := 19
def hello : Nat := 20
def expFlags : Nat := 21
def pattern : Nat := 22
def expTimeout : Nat := 23
def errorCode : Nat := 24
def errorMsg : Nat := 25
def winsizeRow : Nat := 26
def winsizeCol : Nat := 27
def pid : Nat := 28
def ppid : Nat := 29
def ptsname : Nat := 30
def nonblock : Nat := 32
def autowait : Nat := 33
def ttl : Nat := 34
def zombieTtl : Nat := 35
def idletime : Nat := 36
def lookback : Nat := 40
def passSubcmd : Nat := 41
def version : Nat := 42
end Tag

namespace ErrorCode
def usage : Int := 202
def notty : Int := 203
def sys : Int := 204
def proto : Int := 205
def eof : Int := 206
def timeout : Int := 207
def detach : Int := 210
end ErrorCode

/-- `flags & mask` is nonzero, for a single-bit mask. -/
def hasFlag (flags : Int) (mask : Int) : Bool := flags / mask % 2 = 1

def passExpectExact : Int := 0x01
def passExpectGlob : Int := 0x02
def passExpectEre : Int := 0x04
def passExpectEof : Int := 0x08
def passExpectExit : Int := 0x10
def passExpectIcase : Int := 0x20
def passExpectNosub : Int := 0x40
def passExpectNewline : Int := 0x80

def passSubcmdExpect : Int := 1
def passSubcmdInteract : Int := 2
def passSubcmdWait : Int := 3

/-- An `int` argument of a TTLV constructor. -/
def int32 (n : Int) : BitVec 32 := BitVec.ofInt 32 n

def boolWord (b : Bool) : BitVec 32 := if b then 1 else 0

/-- The message of `msg_hello`. -/
def msgHello : Ttlv := ttlvAppendChild (ttlvNewStruct Tag.hello) [ttlvNewText Tag.version version]

/-- The message of `msg_disconn`. -/
def msgDisconn : Ttlv := ttlvNewStruct Tag.disconn

/-- The first offset at which `needle` occurs. -/
def strstr : Bytes → Bytes → Option Nat
  | [], needle => if needle = [] then some 0 else none
  | b :: bs, needle =>
    if needle.isPrefixOf (b :: bs) then some 0 else (strstr bs needle).map (· + 1)

/-- ASCII case folding, the C locale's `tolower`. -/
def tolower (b : UInt8) : UInt8 := if 65 ≤ b ∧ b ≤ 90 then b + 32 else b

def strcasestr (haystack needle : Bytes) : Option Nat :=
  strstr (haystack.map tolower) (needle.map tolower)

/-- `strchr`: the first offset of `c` in the C string of `buf`. -/
def strchr (buf : Bytes) (c : UInt8) : Option Nat := (cstring buf).findIdx? (· = c)

/-- The offsets `regexec` stores are those of the whole match and of the nine
groups, each within the subject. -/
structure Offsets (subject : Bytes) (whole : Nat × Nat) (groups : List (Option (Nat × Nat))) :
    Prop where
  order : whole.1 ≤ whole.2
  bound : whole.2 ≤ subject.length
  count : groups.length = 9
  inside : ∀ so eo, some (so, eo) ∈ groups → so ≤ eo ∧ eo ≤ subject.length

/-- `regcomp` followed by `regexec` with ten slots, with or without `REG_ICASE`
and `REG_NEWLINE`: `none` when the pattern does not compile or does not match. -/
structure Regex where
  regexec (pattern : Bytes) (icase newline : Bool) (subject : Bytes) :
    Option ((Nat × Nat) × List (Option (Nat × Nat)))
  offsets : ∀ pattern icase newline subject whole groups,
    regexec pattern icase newline subject = some (whole, groups) → Offsets subject whole groups

end Sexpect.Source
