import ScriptDebugger.Budget.Forms
import ScriptDebugger.Breakpoints.Dump
import ScriptDebugger.Debugger.Session
import ScriptDebugger.Engine.Machine
import ScriptDebugger.Engine.Playback
import ScriptDebugger.Operand.Bank
import ScriptDebugger.Operand.Census
import ScriptDebugger.Operand.Samples
import ScriptDebugger.Proofs.Debugger.Transparency
import ScriptDebugger.Proofs.Machine.Agreement
import ScriptDebugger.RunState.Forms
import ScriptDebugger.Tracer.Console
import ScriptDebugger.Tracer.Journal
import ScriptDebugger.Tracer.Recorder
import ScriptDebugger.Proofs.Debugger.Pieces
import ScriptDebugger.Proofs.Breakpoints.Contents
import ScriptDebugger.Proofs.Breakpoints.History
import ScriptDebugger.Proofs.Debugger.Record
import ScriptDebugger.Proofs.Breakpoints.RoundTrip
import ScriptDebugger.Proofs.Operand.Equality
import ScriptDebugger.Proofs.Operand.Measuring
import ScriptDebugger.Proofs.Debugger.Underway
import ScriptDebugger.Proofs.Debugger.Requests
import ScriptDebugger.Proofs.Debugger.Hits
import ScriptDebugger.Proofs.Debugger.Transcript
import ScriptDebugger.Proofs.Debugger.Restraint
import ScriptDebugger.Proofs.Debugger.Audit
import ScriptDebugger.Proofs.Debugger.Stopping
import ScriptDebugger.Proofs.Operand.SignBytes
import ScriptDebugger.Proofs.Breakpoints.Language
import ScriptDebugger.Proofs.Breakpoints.Truncation
import ScriptDebugger.Proofs.Breakpoints.Size
import ScriptDebugger.Proofs.Debugger.Bounds
import ScriptDebugger.Proofs.Machine.Termination
import ScriptDebugger.Proofs.Debugger.SingleStep
import ScriptDebugger.Proofs.Tracer.Limit
import ScriptDebugger.Proofs.Tracer.Injective
import ScriptDebugger.Proofs.Operand.Lineage
import ScriptDebugger.Proofs.Operand.References
import ScriptDebugger.Proofs.Operand.Texts
import ScriptDebugger.Proofs.Operand.Truth
import ScriptDebugger.Proofs.Budget.RoundTrip
