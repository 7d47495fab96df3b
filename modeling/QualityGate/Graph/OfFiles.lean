import QualityGate.Graph
import QualityGate.Imports
import QualityGate.Resolver

/-!
The import graph of parsed files.
-/
namespace QualityGate.Graph

open Syntax

def targets (disk : Disk) (resolver : Resolver) (file : SourceFile) : List Path :=
  (Import.ofFile file).filterMap fun i => resolver.resolve? disk i.source file.path

def addSource (disk : Disk) (resolver : Resolver) (g : Graph) (file : SourceFile) : Graph :=
  (targets disk resolver file).foldl (fun g target => g.addEdge file.path target)
    (g.addFile file.path)

def ofFiles (disk : Disk) (resolver : Resolver) (files : List SourceFile) : Graph :=
  files.foldl (addSource disk resolver) empty

end QualityGate.Graph
