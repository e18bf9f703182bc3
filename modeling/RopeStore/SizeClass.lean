import RopeStore.Fault

/-!
# Size classes

A node begins with a one-byte tag. Two small tags name the kinds that are not buffers; the tags from
`bufferTag` to `lastBufferTag` name a buffer node and its allocation size at once.

* the sizes form three bands, with a step of 8 bytes up to 512, of 64 bytes up to 8192 and of
  4096 bytes up to 256 KiB;
* `roundUp` : the least size of the bands that is not below a given one;
* `tagFor`, `sizeFor` : the codec between sizes and buffer tags;
* `capacityFor` : the payload that a buffer of a given tag can hold.
-/

namespace RopeStore.SizeClass

def viewTag : UInt8 := 2

def externalTag : UInt8 := 3

def bufferTag : UInt8 := 4

def lastBufferTag : UInt8 := 246

/-- The last size of the band with steps of 8 bytes. -/
def smallEnd : Nat := 512

/-- The last size of the band with steps of 64 bytes. -/
def mediumEnd : Nat := 8192

def smallTags : Nat := smallEnd / 8

def mediumTags : Nat := (mediumEnd - smallEnd) / 64

/-- The bytes that a buffer node spends before its payload. -/
def headerSize : Nat := 16

def minSize : Nat := 32

/-- The largest allocation of a regular buffer node. -/
def maxSize : Nat := 4096

def maxLargeSize : Nat := 256 * 1024

def minLength : Nat := minSize - headerSize

def maxLength : Nat := maxSize - headerSize

def maxLargeLength : Nat := maxLargeSize - headerSize

/-- The step of the band that `size` lies in. -/
def granularity (size : Nat) : Nat :=
  if size ≤ smallEnd then 8 else if size ≤ mediumEnd then 64 else 4096

/-- The least multiple of the band's step that is not below `size`. The step is added first, so the
sum already faults close to the largest word. -/
def roundUp (size : Nat) : Except Fault Nat := do
  let step := granularity size
  let raised ← checkedAdd size step
  pure ((raised - 1) / step * step)

/-- The position of `size` among all tags, sizes between two classes counting as the lower one. -/
def tagIndex (size : Nat) : Nat :=
  if size ≤ smallEnd then size / 8
  else if size ≤ mediumEnd then smallTags + size / 64 - smallEnd / 64
  else smallTags + mediumTags + size / 4096 - mediumEnd / 4096

/-- The low byte of the position of `size`, whether that is a buffer tag or not. -/
def tagForUnchecked (size : Nat) : UInt8 := (tagIndex size).toUInt8

def isBuffer (tag : UInt8) : Bool := bufferTag ≤ tag && tag ≤ lastBufferTag

def tagFor (size : Nat) : Except Fault UInt8 :=
  if minSize ≤ size ∧ size ≤ maxLargeSize then do
    let tag := tagForUnchecked size
    require .bufferTag (isBuffer tag)
    pure tag
  else .error (.noSizeClass size)

def sizeFor (tag : UInt8) : Nat :=
  let t := tag.toNat
  if t ≤ smallTags then t * 8
  else if t ≤ smallTags + mediumTags then smallEnd + (t - smallTags) * 64
  else mediumEnd + (t - smallTags - mediumTags) * 4096

def capacityFor (tag : UInt8) : Except Fault Nat := checkedSub (sizeFor tag) headerSize

end RopeStore.SizeClass
