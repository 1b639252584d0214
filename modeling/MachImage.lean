import MachImage.Image.File
import MachImage.Image.Query
import MachImage.Script
import MachImage.Proofs.Leb128.Shortest
import MachImage.Proofs.BindStream.Encoding
import MachImage.Proofs.BindStream.Composition
import MachImage.Proofs.BindStream.Repetition
import MachImage.Proofs.BindStream.History
import MachImage.Proofs.BindStream.Positions
import MachImage.Proofs.Record.Fields
import MachImage.Proofs.Header.Exact
import MachImage.Proofs.Script
import MachImage.Proofs.Reader.Words
import MachImage.Proofs.Text.Version
import MachImage.Proofs.Text.Name
import MachImage.Proofs.Command.Body
import MachImage.Proofs.Command.Decode
import MachImage.Proofs.Command.Walk
import MachImage.Proofs.Command.Grammar
import MachImage.Proofs.Command.Tiling
import MachImage.Proofs.Command.Encoding
import MachImage.Proofs.Command.Bindings
import MachImage.Proofs.Command.StreamFaults
import MachImage.Proofs.Command.Cursor
import MachImage.Proofs.Image.Extension
import MachImage.Proofs.Image.Sections
import MachImage.Proofs.Image.Numbering
import MachImage.Proofs.Image.Contents
import MachImage.Proofs.Image.Symbols
import MachImage.Proofs.Image.Addresses
import MachImage.Proofs.Image.SymbolTable
import MachImage.Proofs.Image.Libraries
import MachImage.Proofs.Image.Names
import MachImage.Proofs.Image.Parts
import MachImage.Proofs.Image.Segments
import MachImage.Proofs.Image.Options
import MachImage.Proofs.Image.Events
import MachImage.Proofs.Image.CommandRuns
import MachImage.Proofs.Image.Retry
import MachImage.Proofs.Checked.Reader
import MachImage.Proofs.Checked.BindStream
import MachImage.Proofs.Checked.Command
import MachImage.Proofs.Checked.Build
import MachImage.Proofs.Checked.Query
