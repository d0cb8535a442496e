/-!
# Releases of the platform

The major version of a class file tells the first release of the platform that can
load it. Major 45 is the release 1.1, and every release after it adds one; from major
53 on the leading `1.` is dropped. Lower majors belong to no release.
-/

namespace ClassFile

/-- The release that a class file is made for. -/
inductive Release where
  | unknown
  /-- Of this major version, 45 at least. -/
  | known (major : UInt16)
  deriving DecidableEq, Repr

namespace Release

/-- The release of a major version. -/
def ofMajor (major : UInt16) : Release :=
  if 45 ≤ major.toNat then .known major else .unknown

/-- The major version, if the release is known. -/
def major? : Release → Option UInt16
  | unknown => none
  | known major => some major

/-- The number of the release: `1.1` to `1.8`, then `9`, `10` and so on. -/
def number? : Release → Option String
  | unknown => none
  | known major =>
    let release := toString (major.toNat - 44)
    some (if major.toNat ≤ 52 then "1." ++ release else release)

/-- The name of the execution environment, such as `J2SE-1.4` or `JavaSE-17`. -/
def environment (release : Release) : String :=
  match release with
  | unknown => "<>"
  | known major =>
    let family :=
      if major.toNat = 45 then "JRE" else if major.toNat ≤ 49 then "J2SE" else "JavaSE"
    family ++ "-" ++ release.number?.getD ""

/-- A filter over capabilities that selects the platforms of the release. -/
def filter? (release : Release) : Option String :=
  release.number?.map fun number => "(&(osgi.ee=JavaSE)(version=" ++ number ++ "))"

/-- Whether the release knows annotations, type parameters and enumerations, all of
which came with major 49. -/
def isModern (release : Release) : Bool :=
  match release with
  | unknown => false
  | known major => 49 ≤ major.toNat

end Release

end ClassFile
