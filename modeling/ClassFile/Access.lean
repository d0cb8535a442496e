/-!
# Access flags

Sixteen bits that say who may use a class or a member and how it behaves. Some bits
mean one thing on a class and another on a member.
-/

namespace ClassFile

/-- The access flags of a class, a field or a method. -/
abbrev Access := UInt16

namespace Access

/-- For everyone. -/
def publicBit : UInt16 := 0x0001

/-- For the class itself only. -/
def privateBit : UInt16 := 0x0002

/-- For subclasses and the package. -/
def protectedBit : UInt16 := 0x0004

def staticBit : UInt16 := 0x0008

def finalBit : UInt16 := 0x0010

/-- Of a field. -/
def volatileBit : UInt16 := 0x0040

/-- Of a field. -/
def transientBit : UInt16 := 0x0080

/-- Of a method. -/
def nativeBit : UInt16 := 0x0100

/-- Of a class. -/
def interfaceBit : UInt16 := 0x0200

def abstractBit : UInt16 := 0x0400

def syntheticBit : UInt16 := 0x1000

/-- Of a class. -/
def annotationBit : UInt16 := 0x2000

def enumBit : UInt16 := 0x4000

/-- Whether one of the bits is set. -/
def has (access : Access) (bits : UInt16) : Bool :=
  access &&& bits != 0

/-- Whether other packages can see what has these flags. -/
def isVisible (access : Access) : Bool :=
  access.has publicBit || access.has protectedBit

/-- Whether a class or member is public. -/
def isPublic (access : Access) : Bool := access.has publicBit

/-- Whether a class or method is abstract. -/
def isAbstract (access : Access) : Bool := access.has abstractBit

end Access

end ClassFile
