import ProtoWire.Generator.File
import ProtoWire.Text.Lossy

/-!
# Compiling schemas into a directory

Generated files are written one after the other, from descriptors, from an encoded set of files or
from what the schema compiler makes.
-/

namespace ProtoWire.Generator

/-- What a run left in its output directory, and how it ended. -/
structure Output where
  result : Generate Unit
  /-- Whether the directory was made. -/
  isMade : Bool
  /-- The names and contents of the files written, the latest first. -/
  written : List (String × String)

def Output.failed (failure : Failure) : Output :=
  { result := .error failure, isMade := false, written := [] }

/-- Whether a file of a name can be written: it is short enough, and has no separator or zero in
it. -/
def isWritable (name : String) : Bool :=
  name.toList.all (fun c => c != '/' && c.toNat != 0) && name.utf8ByteSize ≤ 255

def writeFiles (written : List (String × String)) : List GeneratedFile → Output
  | [] => { result := .ok (), isMade := true, written }
  | f :: rest =>
    if isWritable f.name then
      writeFiles ((f.name, f.content) :: written.filter (·.1 != f.name)) rest
    else { result := fail .io, isMade := true, written }

/-- Generates code for files, and writes all of it if nothing failed. -/
def compileFiles (options : Options) (hasDirectory : Bool) (files : List FileDecl)
    (render : Renderer := renderCode) : Output :=
  if hasDirectory then
    match generateFiles options files none render with
    | .ok generated => writeFiles [] generated
    | .error failure => .failed failure
  else .failed (.error .missingOutputDirectory)

/-- Where an encoded set of files comes from. -/
inductive DescriptorSource where
  | unconfigured
  | unreadable
  | contents (data : Bytes)

def decodeSet (data : Bytes) : Generate (List FileDecl) :=
  match Record.parse .fileSet data with
  | .ok record => .ok (FileDecl.ofSetRecord record)
  | .error fault => fail (.decode fault)

def DescriptorSource.files : DescriptorSource → Generate (List FileDecl)
  | unconfigured => fail .missingDescriptorPath
  | unreadable => fail .io
  | contents data => decodeSet data

def compileSet (options : Options) (hasDirectory : Bool) (source : DescriptorSource) : Output :=
  match source.files with
  | .ok files => compileFiles options hasDirectory files
  | .error failure => .failed failure

/-! ### The schema compiler -/

/-- How the schema compiler is found. -/
inductive CompilerPlace where
  | found
  /-- The configured one is not there. -/
  | missing
  | nowhere
deriving DecidableEq

/-- What the schema compiler does when it is run. -/
structure CompilerRun where
  stdout : Bytes
  stderr : Bytes
  exitCode : Nat
  /-- The set of files it writes, if it does. -/
  set? : Option Bytes

def compilerArgs (includes extra schemas : List String) (setPath : String) : List String :=
  includes.flatMap (fun dir => ["-I", dir]) ++
    ["--include_imports", "--descriptor_set_out", setPath] ++ extra ++ schemas

def CompilerRun.complaint (run : CompilerRun) : String :=
  "\n".intercalate (([run.stdout, run.stderr].map fun stream =>
    Text.trim (String.ofList (Text.decodeLossy stream))).filter (· != ""))

def CompilerRun.files (run : CompilerRun) : Generate (List FileDecl) :=
  if run.exitCode ≠ 0 then fail (.compilerFailed run.complaint)
  else
    match run.set? with
    | none => fail .io
    | some data => decodeSet data

/-- Compiles schemas: answers the arguments that the schema compiler was run with, and the
output. -/
def compileSchemas (options : Options) (place : CompilerPlace) (run : CompilerRun)
    (args : List String) : List String × Output :=
  match place with
  | .nowhere => ([], .failed (.error .compilerNotFound))
  | .missing => ([], .failed (.error .io))
  | .found =>
    match run.files with
    | .ok files => (args, compileFiles options true files)
    | .error failure => (args, .failed failure)

end ProtoWire.Generator
